import MicroKernel.Fat32.Volume

set_option autoImplicit false

/-! # What the functions of the driver do on a volume

One lemma for each function below the directory operations: the result and the state after it,
for every pattern of failing calls. They are stated in terms of the volume (`Volume.fat`,
`Volume.setFat`, `Volume.clusterBytes`, `Volume.putCluster`), and everything about the driver
that comes later is proved from them.
-/

namespace MicroKernel.Fat32

open MicroKernel.Lib Bytes

/-- The driver works on the volume `V`, and reads and writes the same drive. -/
structure Fs.On (s : Fs) (V : Volume) : Prop where
  boot : s.bootSector = V.bs
  offset : s.partitionLbaOffset = V.offset
  drive : s.SameDrive

theorem Fs.On.withDisk {s : Fs} {V : Volume} (h : s.On V) (d : Disk) : (s.withDisk d).On V :=
  ⟨h.boot, h.offset, h.drive⟩

/-! ## Positions -/

section positions

variable {s : Fs} {V : Volume}

theorem fatSector_eq (h : s.On V) {k c : Nat} (hk : k < V.bs.numberOfFats) (hc : c < V.total) :
    s.fatSector k c = V.fatPos k c := by
  have h1 := V.fatPos_lt hk hc
  have h2 := V.dataStart_lt
  have h3 := V.total_lt
  unfold Fs.fatSector
  dsimp only
  rw [h.boot, h.offset, V.bytesPerSector_eq]
  unfold eocMin at h3
  have e : u32 (c * 4) / 512 = c / 128 := by
    rw [u32_eq_self (by omega)]
    omega
  rw [e, u32_eq_self (by unfold Volume.fatPos at h1; omega)]
  rfl

theorem entOffset_eq (h : s.On V) {c : Nat} (hc : c < V.total) :
    s.entOffset c = c % 128 * 4 := by
  have h3 := V.total_lt
  unfold eocMin at h3
  unfold Fs.entOffset
  rw [h.boot, V.bytesPerSector_eq, u32_eq_self (by omega)]
  omega

theorem isValidCluster_iff {c : Nat} (hc : c < eocMin) :
    V.bs.isValidCluster c = true ↔ V.Has c := by
  unfold BootSector.isValidCluster Volume.Has Volume.total
  by_cases h2 : c < 2
  · simp [h2]
  · simp [h2, Nat.not_le.mpr hc]
    omega

theorem Volume.Has.lt_eocMin {c : Nat} (hc : V.Has c) : c < eocMin := by
  have := V.total_lt
  have := hc.2
  omega

theorem clusterToSector_eq (h : s.On V) {c : Nat} (hc : V.Has c) :
    s.clusterToSector c = V.dataPos c := by
  have h1 := V.dataPos_add_lt hc V.sectorsPerCluster_pos
  unfold Fs.clusterToSector
  rw [h.boot, h.offset]
  simp only [(isValidCluster_iff hc.lt_eocMin).mpr hc, if_true]
  unfold Volume.dataPos Volume.dataStart at h1 ⊢
  rw [u32_eq_self (by omega)]
  omega

theorem getFirstDataSector_eq (h : s.On V) : s.getFirstDataSector = V.dataStart := by
  have h1 := V.dataStart_lt
  unfold Fs.getFirstDataSector
  rw [h.boot, h.offset]
  simp only [V.rootEntryCount_eq, V.bytesPerSector_eq]
  unfold Volume.dataStart at h1 ⊢
  rw [u32_eq_self (by omega)]
  omega

theorem getEntriesPerCluster_eq (h : s.On V) :
    s.bootSector.getEntriesPerCluster = V.slots := by
  have h1 := V.sectorsPerCluster_pos
  unfold BootSector.getEntriesPerCluster Volume.slots
  rw [h.boot, V.bytesPerSector_eq, if_neg (by omega)]
  omega

end positions

/-! ## FAT entries -/

/-- The bytes of a sector that has just been read. -/
theorem load32_copy (b : Bytes) (sec : Sector) {a : Nat} (ha : a + 4 ≤ 512) :
    load32 (copy b 0 (Sector.bytes sec) 0 512) a = sec.field a := by
  refine load32_congr fun i hi => ?_
  rw [copy_inside _ _ _ (by omega) (by omega)]
  congr 1
  omega

/-- What `get_next_cluster_in_chain` makes of an entry. -/
def nextOf (v : Nat) : Nat := if eocMin ≤ v then invalidCluster else v

section fat

variable {V : Volume} {s : Fs} (e : Env)

theorem run_readFatEntry (h : s.On V) {c : Nat} (hc : V.Has c) :
    (readFatEntry c).run e s
      = some (if e.fails .fat then invalidCluster else V.fat s.disk c, s) := by
  have hpos := V.fatPos_lt V.numberOfFats_pos hc.2
  have hlt := V.dataStart_lt
  have hin : ¬ (c < 2 ∨ s.bootSector.getTotalClusters ≤ c) := by
    have h1 := hc.1
    have h2 := hc.2
    rw [h.boot]
    unfold Volume.total at h2
    omega
  by_cases hf : e.fails .fat
  · simp [readFatEntry, run_readSector, hf]
  · simp only [readFatEntry, Prog.run_bind, Prog.run_get, Option.bind_some, hin, if_false,
      run_uninitialised, run_readSector, hf, Bool.false_eq_true, Bool.not_true, Prog.run_pure]
    rw [fatSector_eq h V.numberOfFats_pos hc.2, entOffset_eq h hc.2,
      Nat.mod_eq_of_lt (show V.fatPos 0 c < 2 ^ 28 by omega), load32_copy _ _ (by omega)]
    rfl

theorem run_getNextClusterInChain (h : s.On V) {c : Nat} (hc : c < V.total) :
    (getNextClusterInChain c).run e s
      = some (if e.fails .fat then invalidCluster else nextOf (V.fat s.disk c), s) := by
  have hpos := V.fatPos_lt V.numberOfFats_pos hc
  have hlt := V.dataStart_lt
  by_cases hf : e.fails .fat
  · simp [getNextClusterInChain, run_readSector, hf]
  · simp only [getNextClusterInChain, Prog.run_bind, Prog.run_get, Option.bind_some, if_false,
      run_uninitialised, run_readSector, hf, Bool.false_eq_true, Bool.not_true, Prog.run_ite,
      Prog.run_pure]
    rw [fatSector_eq h V.numberOfFats_pos hc, entOffset_eq h hc,
      Nat.mod_eq_of_lt (show V.fatPos 0 c < 2 ^ 28 by omega), load32_copy _ _ (by omega)]
    show (if eocMin ≤ V.fat s.disk c then _ else _) = _
    unfold nextOf
    split <;> rfl

theorem getNextClusterInChain_returns (e : Env) (s : Fs) (c : Nat) :
    ∃ v, (getNextClusterInChain c).run e s = some (v, s) := by
  by_cases hf : e.fails .fat
  · exact ⟨invalidCluster, by simp [getNextClusterInChain, run_readSector, hf]⟩
  · simp only [getNextClusterInChain, Prog.run_bind, Prog.run_get, Option.bind_some, if_false,
      run_uninitialised, run_readSector, hf, Bool.false_eq_true, Bool.not_true, Prog.run_ite,
      Prog.run_pure]
    split
    · exact ⟨_, rfl⟩
    · exact ⟨_, rfl⟩

/-- Whatever is asked for, the state stays, and the answer is the invalid marker or below the
end-of-chain range. -/
theorem getNextClusterInChain_state {s' : Fs} {c v : Nat}
    (hr : (getNextClusterInChain c).run e s = some (v, s')) :
    s' = s ∧ (v = invalidCluster ∨ v < eocMin) := by
  by_cases hf : e.fails .fat
  · simp only [getNextClusterInChain, Prog.run_bind, Prog.run_get, Option.bind_some,
      run_uninitialised, run_readSector, hf, if_true, Bool.not_false, Prog.run_pure,
      Option.some.injEq, Prod.mk.injEq] at hr
    exact ⟨hr.2.symm, Or.inl hr.1.symm⟩
  · simp only [getNextClusterInChain, Prog.run_bind, Prog.run_get, Option.bind_some, if_false,
      run_uninitialised, run_readSector, hf, Bool.false_eq_true, Bool.not_true, Prog.run_ite,
      Prog.run_pure] at hr
    split at hr
    · simp only [Option.some.injEq, Prod.mk.injEq] at hr
      exact ⟨hr.2.symm, Or.inl hr.1.symm⟩
    next hlt =>
      simp only [Option.some.injEq, Prod.mk.injEq] at hr
      exact ⟨hr.2.symm, Or.inr (by omega)⟩

end fat

/-! ## Writing sectors

The loops that write FAT copies or the sectors of a cluster stop at the first write or check
that fails. The write at which they stop may have reached the disk. -/

/-- How many of the `n` writes from `i` on reach the disk. -/
def written (e : Env) : Nat → Nat → Nat
  | 0, _ => 0
  | n + 1, i =>
      if e.loses (.store i) then 0
      else if e.fails (.store i) || e.fails (.verify i) then 1
      else written e n (i + 1) + 1

/-- All of the `n` writes from `i` on succeed, and so do their checks. -/
def allWritten (e : Env) : Nat → Nat → Bool
  | 0, _ => true
  | n + 1, i => !e.fails (.store i) && !e.fails (.verify i) && allWritten e n (i + 1)

theorem written_le (e : Env) (n i : Nat) : written e n i ≤ n := by
  induction n generalizing i with
  | zero => exact Nat.le_refl 0
  | succ n ih =>
      have := ih (i + 1)
      unfold written
      split
      · omega
      · split <;> omega

theorem written_of_allWritten {e : Env} {n i : Nat} (h : allWritten e n i = true) :
    written e n i = n := by
  induction n generalizing i with
  | zero => rfl
  | succ n ih =>
      simp only [allWritten, Bool.and_eq_true, Bool.not_eq_true'] at h
      obtain ⟨⟨h1, h2⟩, h3⟩ := h
      simp [written, loses_of_not_fails h1, h1, h2, ih h3]

theorem Env.Reliable.allWritten {e : Env} (h : e.Reliable) (n i : Nat) :
    allWritten e n i = true := by
  induction n generalizing i with
  | zero => rfl
  | succ n ih => simp [Fat32.allWritten, Env.fails, h _, ih (i + 1)]

section write

variable {V : Volume} (e : Env)

theorem run_writeVerified {s : Fs} (h : s.On V) (i lba : Nat) (buffer : Bytes) (a : Nat) :
    (writeVerified i lba buffer a).run e s
      = some (!e.fails (.store i) && !e.fails (.verify i), if e.loses (.store i) then s
          else s.withDisk (Function.update s.disk (lba % 2 ^ 28) (Sector.ofBytes buffer a))) := by
  by_cases hs : e.fails (.store i)
  · simp [writeVerified, run_writeSector e s h.drive, hs]
  · have hl := loses_of_not_fails (Bool.eq_false_iff.mpr hs)
    by_cases hv : e.fails (.verify i)
    · simp [writeVerified, run_writeSector e s h.drive, run_readSector, hs, hl, hv]
    · -- what was just written is what is read back
      have hm : ∀ b : Bytes, memEq (fun x => buffer (a + x))
          (copy b 0 (Sector.bytes (Sector.ofBytes buffer a)) 0 512)
          s.bootSector.bytesPerSector := by
        intro b x hx
        rw [h.boot, V.bytesPerSector_eq] at hx
        rw [copy_inside _ _ _ (by omega) (by omega), Nat.zero_add,
          Sector.bytes_ofBytes _ _ (by omega), Nat.sub_zero]
      simp [writeVerified, run_writeSector e s h.drive, run_readSector, hs, hl, hv, hm]

theorem update_putCopies (d : Disk) (c k : Nat) (sec : Sector) :
    Function.update (V.putCopies d c sec k) (V.fatPos k c) sec = V.putCopies d c sec (k + 1) := by
  funext n
  by_cases hn : n = V.fatPos k c
  · rw [hn, Function.update_self, Volume.putCopies, if_pos ⟨k, by omega, rfl⟩]
  · rw [Function.update_of_ne hn]
    unfold Volume.putCopies
    congr 1
    rw [eq_iff_iff]
    constructor
    · rintro ⟨j, hj, he⟩
      exact ⟨j, by omega, he⟩
    · rintro ⟨j, hj, he⟩
      rcases Nat.lt_succ_iff_lt_or_eq.mp hj with hj | rfl
      · exact ⟨j, hj, he⟩
      · exact absurd he hn

/-- The loop over the copies, in the middle: copies below `k` have been written. -/
theorem run_writeCopies {s : Fs} (h : s.On V) (d : Disk) {c : Nat} (hc : c < V.total)
    (buffer : Bytes) (n : Nat) {k : Nat} (hk : k + n ≤ V.bs.numberOfFats) :
    (writeCopies c buffer n k).run e
        (s.withDisk (V.putCopies d c (Sector.ofBytes buffer 0) k))
      = some (allWritten e n k,
          s.withDisk (V.putCopies d c (Sector.ofBytes buffer 0) (k + written e n k))) := by
  induction n generalizing k with
  | zero => simp [writeCopies, allWritten, written]
  | succ n ih =>
      have hon := h.withDisk (V.putCopies d c (Sector.ofBytes buffer 0) k)
      have hpos := V.fatPos_lt (show k < V.bs.numberOfFats by omega) hc
      have hlt := V.dataStart_lt
      have hsec := fatSector_eq hon (show k < V.bs.numberOfFats by omega) hc
      simp only [writeCopies, Prog.run_bind, Prog.run_get, Option.bind_some,
        run_writeVerified e hon, hsec, Nat.mod_eq_of_lt (show V.fatPos k c < 2 ^ 28 by omega)]
      by_cases hl : e.loses (.store k)
      · simp [allWritten, written, hl, fails_of_loses hl]
      · by_cases hf : e.fails (.store k) || e.fails (.verify k)
        · rcases (Bool.or_eq_true _ _).mp hf with hs | hv
          · simp [allWritten, written, hl, hs, update_putCopies]
          · simp [allWritten, written, hl, hv, update_putCopies]
        · obtain ⟨hs, hv⟩ := Bool.or_eq_false_iff.mp (Bool.eq_false_iff.mpr hf)
          simp [allWritten, written, hl, hs, hv, update_putCopies, ih (k := k + 1) (by omega)]
          congr 2
          omega

theorem update_putCluster (d : Disk) (c i : Nat) (b : Bytes) :
    Function.update (V.putCluster d c b i) (V.dataPos c + i) (Sector.ofBytes b (512 * i))
      = V.putCluster d c b (i + 1) := by
  funext n
  by_cases hn : n = V.dataPos c + i
  · rw [hn, Function.update_self, V.putCluster_inside d b (Nat.lt_succ_self i)]
  · rw [Function.update_of_ne hn]
    unfold Volume.putCluster
    congr 1
    rw [eq_iff_iff]
    omega

/-- The loop over the sectors of a cluster, in the middle: sectors below `i` have been
written. -/
theorem run_writeSectors {s : Fs} (h : s.On V) (d : Disk) {c : Nat} (hc : V.Has c) (b : Bytes)
    (n : Nat) {i : Nat} (hi : i + n ≤ V.bs.sectorsPerCluster) :
    (writeSectors (V.dataPos c) b n i).run e (s.withDisk (V.putCluster d c b i))
      = some (allWritten e n i, s.withDisk (V.putCluster d c b (i + written e n i))) := by
  induction n generalizing i with
  | zero => simp [writeSectors, allWritten, written]
  | succ n ih =>
      have hon := h.withDisk (V.putCluster d c b i)
      have hlt := V.dataPos_add_lt hc (show i < V.bs.sectorsPerCluster by omega)
      have hbps : (s.withDisk (V.putCluster d c b i)).bootSector.bytesPerSector = 512 := by
        rw [hon.boot, V.bytesPerSector_eq]
      simp only [writeSectors, Prog.run_bind, Prog.run_get, Option.bind_some,
        run_writeVerified e hon, hbps, u32_eq_self (show V.dataPos c + i < 2 ^ 32 by omega),
        Nat.mod_eq_of_lt hlt]
      by_cases hl : e.loses (.store i)
      · simp [allWritten, written, hl, fails_of_loses hl]
      · by_cases hf : e.fails (.store i) || e.fails (.verify i)
        · rcases (Bool.or_eq_true _ _).mp hf with hs | hv
          · simp [allWritten, written, hl, hs, update_putCluster]
          · simp [allWritten, written, hl, hv, update_putCluster]
        · obtain ⟨hs, hv⟩ := Bool.or_eq_false_iff.mp (Bool.eq_false_iff.mpr hf)
          simp [allWritten, written, hl, hs, hv, update_putCluster, ih (i := i + 1) (by omega)]
          congr 2
          omega

theorem putCluster_zero (d : Disk) (c : Nat) (b : Bytes) : V.putCluster d c b 0 = d := by
  funext n
  exact V.putCluster_outside d b (by omega)

/-- **`write_cluster`.** -/
theorem run_writeCluster {s : Fs} (h : s.On V) {c : Nat} (hc : V.Has c) (b : Bytes) :
    (writeCluster c b).run e s
      = some (allWritten e V.bs.sectorsPerCluster 0,
          s.withDisk (V.putCluster s.disk c b (written e V.bs.sectorsPerCluster 0))) := by
  have hlt := V.dataPos_add_lt hc V.sectorsPerCluster_pos
  have hfirst : u32 (usub c 2 * s.bootSector.sectorsPerCluster + s.getFirstDataSector)
      = V.dataPos c := by
    have h1 := hc.1
    have h2 := hc.lt_eocMin
    unfold eocMin at h2
    rw [usub_of_le h1 (by omega), getFirstDataSector_eq h, h.boot]
    unfold Volume.dataPos at hlt ⊢
    rw [u32_eq_self (by omega)]
    omega
  have hr := run_writeSectors e h s.disk hc b V.bs.sectorsPerCluster (i := 0) (by omega)
  rw [putCluster_zero, Fs.withDisk_self, Nat.zero_add] at hr
  unfold writeCluster
  rw [Prog.run_bind, Prog.run_get, Option.bind_some]
  dsimp only
  rw [hfirst, h.boot]
  exact hr

end write

/-! ## Changing a FAT entry -/

/-- The free count after an entry has changed from `old` to `value`. -/
def Fs.adjustCount (s : Fs) (old value : Nat) : Fs :=
  if old = 0 ∧ value ≠ 0 then s.updateFsinfoFreeCount (-1)
  else if old ≠ 0 ∧ value = 0 then s.updateFsinfoFreeCount 1
  else s

/-- Patching a sector in a buffer it has just been read into. -/
theorem ofBytes_store32_copy (b : Bytes) (sec : Sector) (a v : Nat) :
    Sector.ofBytes (store32 (copy b 0 (Sector.bytes sec) 0 512) a v) 0 = sec.setField a v := by
  refine Sector.ofBytes_congr fun x hx => ?_
  unfold store32
  split
  · rfl
  · rw [copy_inside _ _ _ (by omega) (by omega)]
    congr 1
    omega

section mark

variable {V : Volume} {s : Fs} (e : Env)

theorem run_markClusterInFat_of_not_has (h : s.On V) {c : Nat} (hc : ¬ V.Has c) (v : Nat) :
    (markClusterInFat c v).run e s = some (false, s) := by
  have hout : c < 2 ∨ s.bootSector.getTotalClusters ≤ c := by
    unfold Volume.Has Volume.total at hc
    rw [h.boot]
    omega
  simp only [markClusterInFat, Prog.run_bind, Prog.run_get, Option.bind_some, if_pos hout,
    Prog.run_pure]

/-- **`mark_cluster_in_fat`.** -/
theorem run_markClusterInFat (h : s.On V) {c : Nat} (hc : V.Has c) (v : Nat) :
    (markClusterInFat c v).run e s
      = some (if e.fails .fat then (false, s)
          else if allWritten e V.bs.numberOfFats 0 then
            (true, (s.withDisk (V.setFat s.disk c v V.bs.numberOfFats)).adjustCount
              (V.fat s.disk c) v)
          else (false, s.withDisk (V.setFat s.disk c v (written e V.bs.numberOfFats 0)))) := by
  have hpos := V.fatPos_lt V.numberOfFats_pos hc.2
  have hlt := V.dataStart_lt
  have hin : ¬ (c < 2 ∨ s.bootSector.getTotalClusters ≤ c) := by
    have h1 := hc.1
    have h2 := hc.2
    rw [h.boot]
    unfold Volume.total at h2
    omega
  by_cases hf : e.fails .fat
  · simp [markClusterInFat, run_readSector, hf]
  · have hw := run_writeCopies e h s.disk hc.2
      (store32 (copy (e.junk (.fat :: e.path)) 0 (Sector.bytes (s.disk (V.fatPos 0 c))) 0 512)
        (c % 128 * 4) (withLow28 (V.rawFat s.disk 0 c) v)) V.bs.numberOfFats (k := 0) (by omega)
    rw [ofBytes_store32_copy, Nat.zero_add] at hw
    have h0 : V.putCopies s.disk c ((s.disk (V.fatPos 0 c)).setField (c % 128 * 4)
        (withLow28 (V.rawFat s.disk 0 c) v)) 0 = s.disk := V.setFat_zero s.disk c v
    rw [h0, Fs.withDisk_self] at hw
    simp only [markClusterInFat, Prog.run_bind, Prog.run_get, Option.bind_some, hin, if_false,
      run_uninitialised, run_readSector, hf, Bool.false_eq_true, Bool.not_true]
    rw [fatSector_eq h V.numberOfFats_pos hc.2, entOffset_eq h hc.2,
      Nat.mod_eq_of_lt (show V.fatPos 0 c < 2 ^ 28 by omega), load32_copy _ _ (by omega), h.boot]
    rw [show (s.disk (V.fatPos 0 c)).field (c % 128 * 4) = V.rawFat s.disk 0 c from rfl, hw,
      Option.bind_some]
    by_cases ha : allWritten e V.bs.numberOfFats 0
    · rw [written_of_allWritten ha]
      simp only [ha, Bool.not_true, Bool.false_eq_true, if_false, if_true]
      show _ = some (true, Fs.adjustCount _ (V.rawFat s.disk 0 c % 2 ^ 28) v)
      unfold Fs.adjustCount
      by_cases h1 : V.rawFat s.disk 0 c % 2 ^ 28 = 0 ∧ v ≠ 0
      · rw [if_pos h1, if_pos h1]
        rfl
      · rw [if_neg h1, if_neg h1]
        by_cases h2 : V.rawFat s.disk 0 c % 2 ^ 28 ≠ 0 ∧ v = 0
        · rw [if_pos h2, if_pos h2]
          rfl
        · rw [if_neg h2, if_neg h2]
          rfl
    · simp only [ha]
      rfl

/-- **`write_fat_entry`.** -/
theorem run_writeFatEntry (h : s.On V) {c : Nat} (hc : V.Has c) (v : Nat) :
    (writeFatEntry c v).run e s
      = some (if e.fails .fat then (false, s)
          else (allWritten e V.bs.numberOfFats 0,
            s.withDisk (V.setFat s.disk c v (written e V.bs.numberOfFats 0)))) := by
  have hpos := V.fatPos_lt V.numberOfFats_pos hc.2
  have hlt := V.dataStart_lt
  by_cases hf : e.fails .fat
  · simp [writeFatEntry, run_readSector, hf]
  · have hw := run_writeCopies e h s.disk hc.2
      (store32 (copy (e.junk (.fat :: e.path)) 0 (Sector.bytes (s.disk (V.fatPos 0 c))) 0 512)
        (c % 128 * 4) (withLow28 (V.rawFat s.disk 0 c) v)) V.bs.numberOfFats (k := 0) (by omega)
    rw [ofBytes_store32_copy, Nat.zero_add] at hw
    have h0 : V.putCopies s.disk c ((s.disk (V.fatPos 0 c)).setField (c % 128 * 4)
        (withLow28 (V.rawFat s.disk 0 c) v)) 0 = s.disk := V.setFat_zero s.disk c v
    rw [h0, Fs.withDisk_self] at hw
    simp only [writeFatEntry, Prog.run_bind, Prog.run_get, Option.bind_some, if_false,
      run_uninitialised, run_readSector, hf, Bool.false_eq_true, Bool.not_true]
    rw [fatSector_eq h V.numberOfFats_pos hc.2, entOffset_eq h hc.2,
      Nat.mod_eq_of_lt (show V.fatPos 0 c < 2 ^ 28 by omega), load32_copy _ _ (by omega), h.boot]
    exact hw

end mark

/-! ## Reading a cluster -/

/-- The buffer after reads of sectors `i` to `i + n - 1` of `src`. -/
def loaded (e : Env) (src : Bytes) : Nat → Nat → Bytes → Bytes
  | 0, _, b => b
  | n + 1, i, b =>
      loaded e src n (i + 1) (if e.fails (.load i) then b else copy b (512 * i) src (512 * i) 512)

/-- None of the reads of sectors `i` to `i + n - 1` fails. -/
def allLoaded (e : Env) : Nat → Nat → Bool
  | 0, _ => true
  | n + 1, i => !e.fails (.load i) && allLoaded e n (i + 1)

theorem allLoaded_iff {e : Env} {n i : Nat} :
    allLoaded e n i = true ↔ ∀ t, i ≤ t → t < i + n → e.fails (.load t) = false := by
  induction n generalizing i with
  | zero =>
      refine ⟨fun _ t h1 h2 => ?_, fun _ => rfl⟩
      omega
  | succ n ih =>
      simp only [allLoaded, Bool.and_eq_true, Bool.not_eq_true', ih]
      constructor
      · rintro ⟨h0, h⟩ t h1 h2
        rcases Nat.eq_or_lt_of_le h1 with rfl | h1
        · exact h0
        · exact h t h1 (by omega)
      · exact fun h => ⟨h i (Nat.le_refl i) (by omega), fun t h1 h2 => h t (by omega) (by omega)⟩

theorem Env.Reliable.allLoaded {e : Env} (h : e.Reliable) (n i : Nat) : allLoaded e n i = true :=
  allLoaded_iff.mpr fun _ _ _ => h _

/-- Every byte of the buffer: the sectors that were read are there, the rest is as before. -/
theorem loaded_eq (e : Env) (src : Bytes) (n i : Nat) (b : Bytes) (x : Nat) :
    loaded e src n i b x
      = if i ≤ x / 512 ∧ x / 512 < i + n ∧ e.fails (.load (x / 512)) = false then src x
        else b x := by
  induction n generalizing i b with
  | zero =>
      rw [loaded, if_neg (by omega)]
  | succ n ih =>
      rw [loaded, ih]
      by_cases hx : x / 512 = i
      · subst hx
        rw [if_neg (by omega)]
        cases hf : e.fails (.load (x / 512)) with
        | true => simp
        | false =>
            rw [if_neg (by decide), if_pos ⟨Nat.le_refl _, by omega, rfl⟩,
              copy_inside _ _ _ (by omega) (by omega), Nat.add_sub_cancel' (by omega)]
      · have hb : (if e.fails (.load i) then b else copy b (512 * i) src (512 * i) 512) x = b x := by
          split
          · rfl
          · exact copy_outside _ _ _ (by omega)
        rw [hb]
        congr 1
        rw [eq_iff_iff]
        constructor
        · rintro ⟨h1, h2, h3⟩
          exact ⟨by omega, by omega, h3⟩
        · rintro ⟨h1, h2, h3⟩
          exact ⟨by omega, by omega, h3⟩

/-- After reads that succeed the buffer holds the sectors. -/
theorem loaded_inside {e : Env} (src : Bytes) {n : Nat} (b : Bytes) {m : Nat}
    (h : allLoaded e m 0 = true) (hm : m ≤ n) {x : Nat} (hx : x / 512 < m) :
    loaded e src n 0 b x = src x := by
  rw [loaded_eq, if_pos]
  exact ⟨Nat.zero_le _, by omega, allLoaded_iff.mp h _ (Nat.zero_le _) (by omega)⟩

section read

variable {V : Volume} {s : Fs} (e : Env)

/-- A sector of a cluster, in the buffer. -/
theorem copy_clusterBytes (d : Disk) (c i : Nat) (b : Bytes) :
    copy b (512 * i) (Sector.bytes (d (V.dataPos c + i))) 0 512
      = copy b (512 * i) (V.clusterBytes d c) (512 * i) 512 := by
  funext x
  by_cases hx : 512 * i ≤ x ∧ x < 512 * i + 512
  · rw [copy_inside _ _ _ (by omega) (by omega), copy_inside _ _ _ (by omega) (by omega),
      Volume.clusterBytes]
    rw [show (512 * i + (x - 512 * i)) / 512 = i by omega,
      show (512 * i + (x - 512 * i)) % 512 = 0 + (x - 512 * i) by omega]
  · rw [copy_outside _ _ _ (by omega), copy_outside _ _ _ (by omega)]

theorem run_readSectors {c : Nat} (hc : V.Has c) (n : Nat) {i : Nat}
    (hi : i + n ≤ V.bs.sectorsPerCluster) (b : Bytes) :
    (readSectors (V.dataPos c) n i b).run e s
      = some (loaded e (V.clusterBytes s.disk c) n i b, s) := by
  induction n generalizing i b with
  | zero => rfl
  | succ n ih =>
      have hlt := V.dataPos_add_lt hc (show i < V.bs.sectorsPerCluster by omega)
      rw [readSectors, Prog.run_bind, run_readSector, Option.bind_some,
        u32_eq_self (show V.dataPos c + i < 2 ^ 32 by omega), Nat.mod_eq_of_lt hlt]
      dsimp only
      rw [loaded, ← copy_clusterBytes]
      cases e.fails (.load i)
      · exact ih (by omega) _
      · exact ih (by omega) _

/-- **`read_cluster`.** -/
theorem run_readCluster (h : s.On V) {c : Nat} (hc : V.Has c) (b : Bytes) :
    (readCluster c b).run e s
      = some (loaded e (V.clusterBytes s.disk c) V.bs.sectorsPerCluster 0 b, s) := by
  have hv : s.bootSector.isValidCluster c = true := by
    rw [h.boot]
    exact (isValidCluster_iff hc.lt_eocMin).mpr hc
  have hpos : V.dataPos c ≠ 0 := by
    have h1 := V.fatPos_lt V.numberOfFats_pos hc.2
    have h2 := V.dataStart_le_dataPos c
    omega
  unfold readCluster
  rw [Prog.run_bind, Prog.run_get, Option.bind_some]
  simp only [hv, Bool.not_true, Bool.false_eq_true, if_false]
  rw [clusterToSector_eq h hc, if_neg hpos, h.boot]
  exact run_readSectors e hc _ (by omega) b

/-- `read_cluster` of a number that is no cluster does nothing. -/
theorem run_readCluster_of_not_has (h : s.On V) {c : Nat} (hlt : c < eocMin) (hc : ¬ V.Has c)
    (b : Bytes) : (readCluster c b).run e s = some (b, s) := by
  have hv : s.bootSector.isValidCluster c = false := by
    rw [h.boot, Bool.eq_false_iff]
    exact fun hv => hc ((isValidCluster_iff hlt).mp hv)
  unfold readCluster
  rw [Prog.run_bind, Prog.run_get, Option.bind_some]
  simp only [hv, Bool.not_false, if_true, Prog.run_pure]

theorem run_readSectorsChecked {c : Nat} (hc : V.Has c) (n : Nat) {i : Nat}
    (hi : i + n ≤ V.bs.sectorsPerCluster) (b : Bytes) :
    (readSectorsChecked (V.dataPos c) n i b).run e s
      = some (if allLoaded e n i then some (loaded e (V.clusterBytes s.disk c) n i b) else none,
          s) := by
  induction n generalizing i b with
  | zero => rfl
  | succ n ih =>
      have hlt := V.dataPos_add_lt hc (show i < V.bs.sectorsPerCluster by omega)
      rw [readSectorsChecked, Prog.run_bind, run_readSector, Option.bind_some,
        u32_eq_self (show V.dataPos c + i < 2 ^ 32 by omega), Nat.mod_eq_of_lt hlt]
      dsimp only
      rw [loaded, ← copy_clusterBytes, allLoaded]
      cases e.fails (.load i)
      · simpa using ih (by omega) _
      · rfl

/-- The entries of a buffer that a cluster has been read into. -/
theorem entryAt_loaded {e : Env} (d : Disk) (c : Nat) (b : Bytes) {j : Nat} (hj : j < V.slots)
    (h : allLoaded e V.bs.sectorsPerCluster 0 = true) :
    entryAt (loaded e (V.clusterBytes d c) V.bs.sectorsPerCluster 0 b) j = V.slot d c j := by
  unfold Volume.slots at hj
  funext i
  have := i.isLt
  exact loaded_inside _ b h (Nat.le_refl _) (by omega)

end read

/-! ## Free clusters -/

/-- The state after the hint has been moved. -/
def Fs.withHint (s : Fs) (c : Nat) : Fs :=
  if s.fsinfoValid then { s with fsinfo := s.fsinfo.setField 492 c } else s

section free

variable {V : Volume} {s : Fs} (e : Env)

/-- A loop of `find_free_cluster` returns, with nothing or with a free cluster. It misses a free
cluster only when it cannot read its FAT entry. -/
theorem run_scanFree (label : Nat → Label) (h : s.On V) (n : Nat) {c : Nat} (h2 : 2 ≤ c)
    (hn : c + n ≤ V.total) :
    ((∀ r, c ≤ r → r < c + n → V.fat s.disk r = 0 → (e.enter (label r)).fails .fat = true) ∧
        (scanFree label n c).run e s = some (none, s)) ∨
      ∃ r, c ≤ r ∧ r < c + n ∧ V.fat s.disk r = 0 ∧ (e.enter (label r)).fails .fat = false ∧
        (scanFree label n c).run e s = some (some r, s.withHint (r + 1)) := by
  induction n generalizing c with
  | zero => exact Or.inl ⟨fun r h1 h2 => by omega, rfl⟩
  | succ n ih =>
      have hc : V.Has c := ⟨h2, by omega⟩
      simp only [scanFree, Prog.run_bind, run_within, run_readFatEntry _ h hc, Option.bind_some,
        Prog.run_ite, Prog.run_modify, Prog.run_pure]
      by_cases h0 : (e.enter (label c)).fails .fat = false ∧ V.fat s.disk c = 0
      · right
        refine ⟨c, Nat.le_refl c, by omega, h0.2, h0.1, ?_⟩
        simp only [h0.1, Bool.false_eq_true, if_false, h0.2, if_true]
        rfl
      · have hne : (if (e.enter (label c)).fails .fat then invalidCluster else V.fat s.disk c)
            ≠ 0 := by
          split
          next => decide
          next hf => exact fun hz => h0 ⟨by simpa using hf, hz⟩
        rw [if_neg hne]
        rcases ih (c := c + 1) (by omega) (by omega) with ⟨hno, hrun⟩ | ⟨r, h3, h4, h5⟩
        · refine Or.inl ⟨fun r h3 h4 hz => ?_, hrun⟩
          rcases Nat.eq_or_lt_of_le h3 with rfl | h3
          · by_contra hf
            exact h0 ⟨by simpa using hf, hz⟩
          · exact hno r h3 (by omega) hz
        · exact Or.inr ⟨r, by omega, by omega, h5⟩

/-- There is a free cluster that `find_free_cluster` can see. -/
def Fs.Offers (s : Fs) (V : Volume) (e : Env) : Prop :=
  ∃ c, V.Has c ∧ V.fat s.disk c = 0 ∧
    (e.enter (if s.searchStart ≤ c then .candidate c else .wrapped c)).fails .fat = false

/-- **`find_free_cluster`** returns a free cluster, or fails without a change. -/
theorem run_findFreeCluster (h : s.On V) :
    (¬ s.Offers V e ∧ findFreeCluster.run e s = some (invalidCluster, s)) ∨
      (s.Offers V e ∧ ∃ r, V.Has r ∧ V.fat s.disk r = 0 ∧
        findFreeCluster.run e s = some (r, s.withHint (r + 1))) := by
  -- the hint of FSInfo is taken where it is a cluster
  have hstart : s.searchStart = 2 ∨ 2 ≤ s.searchStart ∧ s.searchStart < V.total := by
    unfold Fs.searchStart Volume.total
    rw [h.boot]
    split
    next hc => exact Or.inr ⟨hc.2.2.1, hc.2.2.2⟩
    next => exact Or.inl rfl
  have h2 : 2 ≤ s.searchStart := by omega
  have hrun : findFreeCluster.run e s
      = ((scanFree .candidate (V.total - s.searchStart) s.searchStart).run e s).bind fun p =>
          p.1.elim
            (((scanFree .wrapped (s.searchStart - 2) 2).run e p.2).bind fun q =>
              some (q.1.getD invalidCluster, q.2))
            fun cluster => some (cluster, p.2) := by
    unfold findFreeCluster
    rw [Prog.run_bind, Prog.run_get, Option.bind_some, Prog.run_bind, h.boot]
    congr 1
    funext p
    obtain ⟨p1, p2⟩ := p
    cases p1 with
    | some c => rfl
    | none =>
        show Prog.run (scanFree .wrapped _ _ >>= _) e p2 = _
        rw [Prog.run_bind]
        congr 1
        funext q
        obtain ⟨q1, q2⟩ := q
        cases q1 <;> rfl
  rw [hrun]
  by_cases hle : s.searchStart ≤ V.total
  · rcases run_scanFree e .candidate h (V.total - s.searchStart) h2 (by omega) with
      ⟨hno, h1⟩ | ⟨r, h3, h4, h0, hf, h1⟩
    · rw [h1, Option.bind_some]
      dsimp only
      -- nothing is found up to the last cluster, and the search starts again at cluster 2
      rcases run_scanFree e .wrapped h (s.searchStart - 2) (le_refl 2) (by omega) with
        ⟨hno', h5⟩ | ⟨r, h3, h4, h0, hf, h5⟩
      · refine Or.inl ⟨?_, by rw [h5]; rfl⟩
        rintro ⟨c, hc, h0, hf⟩
        have hc1 := hc.1
        have hc2 := hc.2
        split at hf
        · rw [hno c (by omega) (by omega) h0] at hf
          cases hf
        · rw [hno' c (by omega) (by omega) h0] at hf
          cases hf
      · have hr : V.Has r := ⟨h3, by omega⟩
        refine Or.inr ⟨⟨r, hr, h0, ?_⟩, r, hr, h0, by rw [h5]; rfl⟩
        rw [if_neg (by omega), hf]
    · have hr : V.Has r := ⟨by omega, by omega⟩
      refine Or.inr ⟨⟨r, hr, h0, ?_⟩, r, hr, h0, by rw [h1]; rfl⟩
      rw [if_pos h3, hf]
  · -- fewer than two clusters: neither loop has a round
    have e1 : V.total - s.searchStart = 0 := by omega
    have e2 : s.searchStart - 2 = 0 := by omega
    refine Or.inl ⟨?_, by rw [e1, e2]; rfl⟩
    rintro ⟨c, hc, -⟩
    have hc1 := hc.1
    have hc2 := hc.2
    omega

end free

/-! ## FSInfo -/

/-- The state after a `write_fsinfo` that reaches the disk. -/
def Fs.synced (s : Fs) (V : Volume) : Fs :=
  s.withDisk (Function.update s.disk V.fsinfoPos s.fsinfo)

/-- FSInfo, when it is in use, lies in the reserved sectors. -/
def Fs.InfoReserved (s : Fs) (V : Volume) : Prop :=
  s.fsinfoValid = true → V.bs.fsInfo < V.bs.reservedSectorCount

/-- **`write_fsinfo`**, as far as its callers care. -/
theorem run_writeFsinfo {V : Volume} {s : Fs} (e : Env) (h : s.On V) (hi : s.InfoReserved V) :
    ∃ b, writeFsinfo.run e s
      = some (b, if s.fsinfoValid = true ∧ e.loses (.store 0) = false then s.synced V else s) := by
  by_cases hv : s.fsinfoValid = true
  · have h1 := V.data_le
    have h2 := V.stop_le
    have h3 := hi hv
    have hpos : u32 (s.partitionLbaOffset + s.bootSector.fsInfo) = V.fsinfoPos := by
      rw [h.offset, h.boot, u32_eq_self (by omega)]
      rfl
    have hlt : V.fsinfoPos < 2 ^ 28 := by
      unfold Volume.fsinfoPos
      omega
    unfold writeFsinfo
    rw [Prog.run_bind, Prog.run_get, Option.bind_some]
    simp only [hv, Bool.true_eq_false, if_false, Prog.run_bind, run_writeSector e s h.drive]
    rw [hpos, Nat.mod_eq_of_lt hlt, Sector.ofBytes_bytes]
    by_cases hs : e.fails (.store 0)
    · cases hl : e.loses (.store 0) <;> simp [hs, Fs.synced]
    · have hl := loses_of_not_fails (Bool.eq_false_iff.mpr hs)
      by_cases hf : e.fails (.verify 0)
      · simp [hs, hl, hf, run_readSector, Fs.synced]
      · simp [hs, hl, hf, run_readSector, Fs.synced]
  · exact ⟨false, by simp [writeFsinfo, hv]⟩

end MicroKernel.Fat32
