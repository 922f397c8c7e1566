import MicroKernel.Fat32.Geometry

set_option autoImplicit false

/-! # A cluster that is written and read again

`write_cluster` and `read_cluster` find the first sector of a cluster by different formulas: the
write leaves room for the root directory of FAT16, the read does not. They also step through the
buffer by different sizes, the size of a sector in the boot sector and 512. `roundTrips_iff` says for
which boot sectors the two belong together nevertheless.

The ATA driver uses the low 28 bits of a sector number. `putSectors` and `gather` are the loops of the
two functions on the disk, for any place that a sector may have there.
-/

namespace MicroKernel.Fat32

open MicroKernel.Lib Bytes

/-! ## The loops -/

section loops

variable (place : Nat → Nat)

/-- The disk after `n` sectors of an image from sector `i` on, which are `size` bytes apart in the
image. -/
def putSectors (size : Nat) (image : Bytes) : Nat → Nat → Disk → Disk
  | 0, _, d => d
  | n + 1, i, d =>
      putSectors size image n (i + 1)
        (Function.update d (place i) (Sector.ofBytes image (size * i)))

/-- The buffer after `n` sectors from sector `i` on. -/
def gather (d : Disk) (n i : Nat) (buffer : Bytes) : Bytes := fun x =>
  if 512 * i ≤ x ∧ x < 512 * (i + n) then Sector.bytes (d (place (x / 512))) (x % 512) else buffer x

variable {place}

theorem putSectors_outside {size : Nat} {image : Bytes} {n i p : Nat} {d : Disk}
    (h : ∀ j, i ≤ j → j < i + n → p ≠ place j) : putSectors place size image n i d p = d p := by
  induction n generalizing i d with
  | zero => rfl
  | succ n ih =>
      rw [putSectors, ih fun j hj hlt => h j (by omega) (by omega),
        Function.update_of_ne (h i (Nat.le_refl i) (by omega))]

theorem putSectors_inside {size : Nat} {image : Bytes} {n i j : Nat} {d : Disk}
    (hinj : ∀ j j', i ≤ j → j < j' → j' < i + n → place j ≠ place j') (hi : i ≤ j) (hj : j < i + n) :
    putSectors place size image n i d (place j) = Sector.ofBytes image (size * j) := by
  induction n generalizing i d with
  | zero => omega
  | succ n ih =>
      rw [putSectors]
      rcases Nat.eq_or_lt_of_le hi with rfl | hlt
      · -- the sectors behind it do not come back to its place
        rw [putSectors_outside fun j' hj' hlt => hinj i j' (Nat.le_refl i) hj' (by omega),
          Function.update_self]
      · exact ih (fun j j' hj hlt hj' => hinj j j' (by omega) hlt (by omega)) hlt (by omega)

theorem gather_outside {d : Disk} {n i x : Nat} {buffer : Bytes}
    (h : x < 512 * i ∨ 512 * (i + n) ≤ x) : gather place d n i buffer x = buffer x := by
  unfold gather
  rw [if_neg (by omega)]

theorem gather_inside {d : Disk} {n i x : Nat} {buffer : Bytes} (h : 512 * i ≤ x)
    (h' : x < 512 * (i + n)) :
    gather place d n i buffer x = Sector.bytes (d (place (x / 512))) (x % 512) := by
  unfold gather
  rw [if_pos ⟨h, h'⟩]

theorem gather_zero (d : Disk) (i : Nat) (buffer : Bytes) : gather place d 0 i buffer = buffer := by
  funext x
  exact gather_outside (by omega)

theorem gather_succ (d : Disk) (n i : Nat) (buffer : Bytes) :
    gather place d n (i + 1) (copy buffer (512 * i) (Sector.bytes (d (place i))) 0 512)
      = gather place d (n + 1) i buffer := by
  funext x
  by_cases hx : 512 * (i + 1) ≤ x ∧ x < 512 * (i + 1 + n)
  · rw [gather_inside hx.1 hx.2, gather_inside (by omega) (by omega)]
  · rw [gather_outside (by omega)]
    by_cases hi : 512 * i ≤ x ∧ x < 512 * (i + 1)
    · rw [copy_inside _ _ _ hi.1 (by omega), gather_inside hi.1 (by omega), Nat.zero_add,
        show x / 512 = i by omega, show x % 512 = x - 512 * i by omega]
    · rw [copy_outside _ _ _ (by omega), gather_outside (by omega)]

/-- A disk that agrees at the places that are read. -/
theorem gather_congr {d d' : Disk} {n : Nat} (h : ∀ j, j < n → d' (place j) = d (place j))
    (buffer : Bytes) : gather place d' n 0 buffer = gather place d n 0 buffer := by
  funext x
  by_cases hx : x < 512 * n
  · rw [gather_inside (by omega) (by omega), gather_inside (by omega) (by omega),
      h (x / 512) (by omega)]
  · rw [gather_outside (by omega), gather_outside (by omega)]

end loops

theorem u32_mod (n : Nat) : u32 n % 2 ^ 28 = n % 2 ^ 28 := by
  unfold u32
  omega

section run

variable {e : Env} {s : Fs} (he : e.Reliable)

include he

theorem run_readSectors_reliable (start n i : Nat) (buffer : Bytes) :
    (readSectors start n i buffer).run e s
      = some (gather (fun j => (start + j) % 2 ^ 28) s.disk n i buffer, s) := by
  induction n generalizing i buffer with
  | zero => rw [gather_zero, readSectors, Prog.run_pure]
  | succ n ih =>
      have hload : e.fails (.load i) = false := he _
      rw [readSectors, Prog.run_bind, run_readSector, Option.bind_some, hload, u32_mod]
      exact (ih (i + 1) _).trans (by rw [gather_succ])

variable (hs : s.SameDrive)

include hs

/-- A write is followed by a comparison with what is read back, for as many bytes as the boot sector
gives to a sector. -/
theorem run_writeVerified_reliable (i lba : Nat) (image : Bytes) (a : Nat) :
    (writeVerified i lba image a).run e s
      = some (decide (memEq (fun x => image (a + x)) (copy (e.junk (.verify i :: e.path)) 0
            (Sector.bytes (Sector.ofBytes image a)) 0 512) s.bootSector.bytesPerSector),
          s.withDisk (Function.update s.disk (lba % 2 ^ 28) (Sector.ofBytes image a))) := by
  have hstore : e.fails (.store i) = false := he _
  have hverify : e.fails (.verify i) = false := he _
  have hloses := loses_of_not_fails hstore
  by_cases hm : memEq (fun x => image (a + x)) (copy (e.junk (.verify i :: e.path)) 0
      (Sector.bytes (Sector.ofBytes image a)) 0 512) s.bootSector.bytesPerSector
  · simp [writeVerified, run_writeSector e s hs, run_readSector, hstore, hloses, hverify, hm]
  · simp [writeVerified, run_writeSector e s hs, run_readSector, hstore, hloses, hverify, hm]

/-- A write that returns `true` has written every sector. -/
theorem writeSectors_written {first n i : Nat} {image : Bytes} {s' : Fs}
    (h : (writeSectors first image n i).run e s = some (true, s')) :
    s' = s.withDisk (putSectors (fun j => (first + j) % 2 ^ 28) s.bootSector.bytesPerSector image
      n i s.disk) := by
  induction n generalizing s i with
  | zero =>
      cases h
      exact (Fs.withDisk_self _).symm
  | succ n ih =>
      rw [writeSectors, Prog.run_bind, Prog.run_get, Option.bind_some, Prog.run_bind,
        run_writeVerified_reliable he hs, Option.bind_some, u32_mod] at h
      by_cases hm : memEq (fun x => image (s.bootSector.bytesPerSector * i + x))
          (copy (e.junk (.verify i :: e.path)) 0
            (Sector.bytes (Sector.ofBytes image (s.bootSector.bytesPerSector * i))) 0 512)
          s.bootSector.bytesPerSector
      · simp only [hm, decide_true, Bool.not_true, Bool.false_eq_true, if_false] at h
        have hrest := ih (s := s.withDisk _) hs h
        rw [Fs.withDisk_withDisk, Fs.withDisk_disk] at hrest
        exact hrest
      · simp [hm] at h

/-- An image of one byte over and over is written, if the memory for the comparison happens to hold
that byte. -/
theorem run_writeSectors_constant {w : UInt8} (hjunk : ∀ p x, e.junk p x = w) (first n i : Nat) :
    (writeSectors first (fun _ => w) n i).run e s
      = some (true, s.withDisk (putSectors (fun j => (first + j) % 2 ^ 28)
          s.bootSector.bytesPerSector (fun _ => w) n i s.disk)) := by
  induction n generalizing s i with
  | zero => exact congrArg (fun t => some (true, t)) s.withDisk_self.symm
  | succ n ih =>
      have hm : memEq (fun _ => w) (copy (e.junk (.verify i :: e.path)) 0
          (Sector.bytes (Sector.ofBytes (fun _ => w) (s.bootSector.bytesPerSector * i))) 0 512)
          s.bootSector.bytesPerSector := by
        intro x _
        by_cases hx : x < 512
        · rw [copy_inside _ _ _ (Nat.zero_le x) (by omega),
            Sector.bytes_ofBytes _ _ (by omega)]
        · rw [copy_outside _ _ _ (by omega), hjunk]
      rw [writeSectors, Prog.run_bind, Prog.run_get, Option.bind_some, Prog.run_bind,
        run_writeVerified_reliable he hs, Option.bind_some, u32_mod]
      simp only [hm, decide_true, Bool.not_true, Bool.false_eq_true, if_false]
      rw [ih (s := s.withDisk _) hs, Fs.withDisk_withDisk, Fs.withDisk_disk]
      rfl

end run

/-! ## Places of clusters -/

/-- The sectors that `get_first_data_sector` leaves for a root directory. -/
def BootSector.rootDirSectors (bs : BootSector) : Nat :=
  (bs.rootEntryCount * 32 + (bs.bytesPerSector - 1)) / bs.bytesPerSector

/-- The place on the disk of sector `i` of cluster `c`, for a read. -/
def Fs.sectorPlace (s : Fs) (c i : Nat) : Nat :=
  (s.partitionLbaOffset + s.bootSector.metadata + (c - 2) * s.bootSector.sectorsPerCluster + i)
    % 2 ^ 28

theorem BootSector.rootDirSectors_of_zero {bs : BootSector} (hpos : 0 < bs.bytesPerSector)
    (h : bs.rootEntryCount = 0) : bs.rootDirSectors = 0 := by
  unfold rootDirSectors
  rw [h, Nat.zero_mul, Nat.zero_add, Nat.div_eq_of_lt (by omega)]

/-- A root directory takes at least one sector, and at most one for every byte. -/
theorem BootSector.rootDirSectors_bounds {bs : BootSector} (hpos : 0 < bs.bytesPerSector)
    (h : bs.rootEntryCount ≠ 0) :
    0 < bs.rootDirSectors ∧ bs.rootDirSectors ≤ bs.rootEntryCount * 32 := by
  unfold rootDirSectors
  constructor
  · exact Nat.div_pos (by omega) hpos
  · have hmul : bs.rootEntryCount * 32 * 1 ≤ bs.rootEntryCount * 32 * bs.bytesPerSector :=
      Nat.mul_le_mul_left _ hpos
    refine Nat.le_of_lt_succ ((Nat.div_lt_iff_lt_mul hpos).mpr ?_)
    rw [Nat.succ_mul]
    omega

section places

variable {s : Fs}

/-- Sectors of different clusters have different places, if there are places for all of them. -/
theorem sectorPlace_inj
    (hroom : (s.bootSector.getTotalClusters - 2) * s.bootSector.sectorsPerCluster ≤ 2 ^ 28)
    {c d i j : Nat} (hc : 2 ≤ c) (hct : c < s.bootSector.getTotalClusters) (hd : 2 ≤ d)
    (hdt : d < s.bootSector.getTotalClusters) (hi : i < s.bootSector.sectorsPerCluster)
    (hj : j < s.bootSector.sectorsPerCluster) (h : s.sectorPlace c i = s.sectorPlace d j) :
    c = d ∧ i = j := by
  have hlt : ∀ x k, x < s.bootSector.getTotalClusters → 2 ≤ x → k < s.bootSector.sectorsPerCluster →
      (x - 2) * s.bootSector.sectorsPerCluster + k < 2 ^ 28 := by
    intro x k hx h2 hk
    have hle : (x - 2 + 1) * s.bootSector.sectorsPerCluster
        ≤ (s.bootSector.getTotalClusters - 2) * s.bootSector.sectorsPerCluster :=
      Nat.mul_le_mul_right _ (by omega)
    rw [Nat.succ_mul] at hle
    omega
  have hquot : ∀ x k, k < s.bootSector.sectorsPerCluster →
      ((x - 2) * s.bootSector.sectorsPerCluster + k) / s.bootSector.sectorsPerCluster = x - 2 := by
    intro x k hk
    rw [Nat.mul_comm, Nat.mul_add_div (by omega), Nat.div_eq_of_lt hk, Nat.add_zero]
  have hsum : (c - 2) * s.bootSector.sectorsPerCluster + i
      = (d - 2) * s.bootSector.sectorsPerCluster + j := by
    have h1 := hlt c i hct hc hi
    have h2 := hlt d j hdt hd hj
    unfold Fs.sectorPlace at h
    omega
  have hcd : c - 2 = d - 2 := by rw [← hquot c i hi, hsum, hquot d j hj]
  rw [hcd] at hsum
  exact ⟨by omega, by omega⟩

theorem isValidCluster_of_lt {bs : BootSector} {c : Nat} (h2 : 2 ≤ c)
    (hc : c < bs.getTotalClusters) : bs.isValidCluster c = true := by
  unfold BootSector.isValidCluster
  rw [if_neg (by omega)]
  split
  · rfl
  · exact decide_eq_true hc

/-- **`read_cluster`** when nothing fails. -/
theorem run_readCluster_reliable {e : Env} (he : e.Reliable) {c : Nat} (h2 : 2 ≤ c)
    (hc : c < s.bootSector.getTotalClusters) (buffer : Bytes) :
    (readCluster c buffer).run e s
      = some (if s.clusterToSector c = 0 then buffer
          else gather (s.sectorPlace c) s.disk s.bootSector.sectorsPerCluster 0 buffer, s) := by
  have hv := isValidCluster_of_lt h2 hc
  have hplace : (fun j => (s.clusterToSector c + j) % 2 ^ 28) = s.sectorPlace c := by
    funext j
    unfold Fs.clusterToSector Fs.sectorPlace BootSector.metadata u32
    rw [if_pos hv]
    omega
  unfold readCluster
  rw [Prog.run_bind, Prog.run_get, Option.bind_some]
  simp only [hv, Bool.not_true, Bool.false_eq_true, if_false]
  by_cases hstart : s.clusterToSector c = 0
  · simp only [hstart, if_true, Prog.run_pure]
  · simp only [hstart, if_false]
    rw [run_readSectors_reliable he, hplace]

/-- The same on a disk that has been written to. -/
theorem run_readCluster_withDisk {e : Env} (he : e.Reliable) {c : Nat} (h2 : 2 ≤ c)
    (hc : c < s.bootSector.getTotalClusters) (buffer : Bytes) (d : Disk) :
    (readCluster c buffer).run e (s.withDisk d)
      = some (if s.clusterToSector c = 0 then buffer
          else gather (s.sectorPlace c) d s.bootSector.sectorsPerCluster 0 buffer, s.withDisk d) := by
  have hrun := run_readCluster_reliable (s := s.withDisk d) he h2 hc buffer
  rw [Fs.withDisk_disk] at hrun
  exact hrun

/-- A write has its first sector behind a root directory. -/
theorem writePlace_eq {c : Nat} (h2 : 2 ≤ c) (hc : c < 2 ^ 32) :
    (fun j => (u32 (usub c 2 * s.bootSector.sectorsPerCluster + s.getFirstDataSector) + j) % 2 ^ 28)
      = fun j => s.sectorPlace c (s.bootSector.rootDirSectors + j) := by
  funext j
  rw [usub_of_le h2 hc]
  unfold Fs.sectorPlace Fs.getFirstDataSector BootSector.metadata BootSector.rootDirSectors u32
  dsimp only
  omega

/-- `write_cluster` on the disk. -/
def Fs.putImage (s : Fs) (c : Nat) (image : Bytes) : Disk :=
  putSectors (fun j => s.sectorPlace c (s.bootSector.rootDirSectors + j)) s.bootSector.bytesPerSector
    image s.bootSector.sectorsPerCluster 0 s.disk

variable {e : Env} (he : e.Reliable) (hs : s.SameDrive) {c : Nat} (h2 : 2 ≤ c) (hc : c < 2 ^ 32)

include he hs h2 hc

/-- **`write_cluster`** when nothing fails and it returns `true`. -/
theorem writeCluster_written {image : Bytes} {s' : Fs}
    (h : (writeCluster c image).run e s = some (true, s')) : s' = s.withDisk (s.putImage c image) := by
  unfold writeCluster at h
  rw [Prog.run_bind, Prog.run_get, Option.bind_some] at h
  have hw := writeSectors_written he hs h
  rw [writePlace_eq h2 hc] at hw
  exact hw

theorem run_writeCluster_constant {w : UInt8} (hjunk : ∀ p x, e.junk p x = w) :
    (writeCluster c fun _ => w).run e s = some (true, s.withDisk (s.putImage c fun _ => w)) := by
  unfold writeCluster
  rw [Prog.run_bind, Prog.run_get, Option.bind_some, run_writeSectors_constant he hs hjunk,
    writePlace_eq h2 hc]
  rfl

end places

/-! ## The round trip -/

/-- What a write of `image` to cluster `c` that took the driver from `s` to `s'` has to do. -/
structure RoundTrip (s s' : Fs) (c : Nat) (image : Bytes) : Prop where
  same : ∀ e : Env, e.Reliable → ∀ buffer, ∃ out, (readCluster c buffer).run e s' = some (out, s') ∧
    ∀ x, x < s.bootSector.bytesPerSector * s.bootSector.sectorsPerCluster → out x = image x
  others : ∀ e : Env, e.Reliable → ∀ buffer d, 2 ≤ d → d < s.bootSector.getTotalClusters → d ≠ c →
    ((readCluster d buffer).run e s').map Prod.fst = ((readCluster d buffer).run e s).map Prod.fst

/-- Every write that returns `true` does it. -/
def Fs.RoundTrips (s : Fs) : Prop :=
  ∀ c, 2 ≤ c → c < s.bootSector.getTotalClusters → ∀ (image : Bytes) (e : Env), e.Reliable →
    ∀ s', (writeCluster c image).run e s = some (true, s') → RoundTrip s s' c image

/-- The formulas of the write and the read give the same sectors, which are as many as the ATA driver
can tell apart, and none of the clusters starts at sector 0, which `read_cluster` takes for an
error. -/
structure Fs.SameSectors (s : Fs) : Prop where
  bytesPerSector : s.bootSector.bytesPerSector = 512
  rootEntryCount : s.bootSector.rootEntryCount = 0
  room : (s.bootSector.getTotalClusters - 2) * s.bootSector.sectorsPerCluster ≤ 2 ^ 28
  start : ∀ c, 2 ≤ c → c < s.bootSector.getTotalClusters →
    (s.partitionLbaOffset + s.bootSector.metadata + (c - 2) * s.bootSector.sectorsPerCluster) % 2 ^ 32
      ≠ 0

theorem clusterToSector_ne_zero_iff {s : Fs} {c : Nat} (h2 : 2 ≤ c)
    (hc : c < s.bootSector.getTotalClusters) : s.clusterToSector c ≠ 0 ↔
      (s.partitionLbaOffset + s.bootSector.metadata
        + (c - 2) * s.bootSector.sectorsPerCluster) % 2 ^ 32 ≠ 0 := by
  unfold Fs.clusterToSector BootSector.metadata u32
  rw [if_pos (isValidCluster_of_lt h2 hc)]
  omega

theorem getTotalClusters_lt {bs : BootSector} (hspc : bs.sectorsPerCluster ≠ 0) :
    bs.getTotalClusters < 2 ^ 32 := by
  have hmul := bs.getTotalClusters_mul_lt hspc
  have hle : bs.getTotalClusters * 1 ≤ bs.getTotalClusters * bs.sectorsPerCluster :=
    Nat.mul_le_mul_left _ (Nat.pos_of_ne_zero hspc)
  omega

/-- **The round trip**, where the sectors are the same. -/
theorem Fs.SameSectors.roundTrips {s : Fs} (h : s.SameSectors) (hs : s.SameDrive)
    (hspc : s.bootSector.sectorsPerCluster ≠ 0) : s.RoundTrips := by
  intro c h2 hc image e he s' hrun
  have hlt := getTotalClusters_lt hspc
  have hbps : 0 < s.bootSector.bytesPerSector := by
    rw [h.bytesPerSector]
    omega
  have hroot := BootSector.rootDirSectors_of_zero hbps h.rootEntryCount
  have hplace : (fun j => s.sectorPlace c (s.bootSector.rootDirSectors + j)) = s.sectorPlace c := by
    funext j
    rw [hroot, Nat.zero_add]
  obtain rfl := writeCluster_written he hs h2 (by omega) hrun
  unfold Fs.putImage
  rw [hplace, h.bytesPerSector]
  constructor
  · intro e' he' buffer
    refine ⟨_, run_readCluster_withDisk he' h2 hc buffer _, fun x hx => ?_⟩
    have hstart := (clusterToSector_ne_zero_iff h2 hc).mpr (h.start c h2 hc)
    rw [h.bytesPerSector] at hx
    rw [if_neg hstart, gather_inside (by omega) (by omega), putSectors_inside
      (fun j j' _ hjj hj' heq => by
        have hj := (sectorPlace_inj h.room h2 hc h2 hc (by omega) (by omega) heq).2
        omega)
      (Nat.zero_le _) (by omega), Sector.bytes_ofBytes _ _ (Nat.mod_lt _ (by decide)),
      Nat.div_add_mod]
  · intro e' he' buffer d hd2 hd hne
    rw [run_readCluster_reliable he' hd2 hd, run_readCluster_withDisk he' hd2 hd,
      gather_congr fun j hj => putSectors_outside fun j' _ hj' heq =>
        hne (sectorPlace_inj h.room hd2 hd h2 hc hj (by omega) heq).1]
    rfl

/-! ## Where it fails -/

/-- Nothing fails, and memory that was never written holds the byte `w`. -/
def constantEnv (w : UInt8) : Env where
  path := []
  fault := fun _ => false
  late := fun _ => false
  outOfMemory := fun _ => false
  junk := fun _ _ => w
  clock := fun _ => ⟨0, 0, 0, 0, 0, 0⟩

theorem constantEnv_reliable (w : UInt8) : (constantEnv w).Reliable := fun _ => rfl

theorem byte_add_one_ne (w : UInt8) : w + 1 ≠ w := by
  intro h
  have hval := congrArg UInt8.toNat h
  rw [UInt8.toNat_add] at hval
  have hlt := w.toNat_lt
  change (w.toNat + 1) % 256 = w.toNat at hval
  omega

namespace Fs.RoundTrips

variable {s : Fs} (h : s.RoundTrips) (hs : s.SameDrive) (hspc : s.bootSector.sectorsPerCluster ≠ 0)

include h hs hspc

/-- The images of one byte over and over, which can always be written. -/
theorem constant {c : Nat} (h2 : 2 ≤ c) (hc : c < s.bootSector.getTotalClusters) (w : UInt8) :
    RoundTrip s (s.withDisk (s.putImage c fun _ => w)) c fun _ => w := by
  have hlt := getTotalClusters_lt hspc
  exact h c h2 hc _ (constantEnv w) (constantEnv_reliable w) _
    (run_writeCluster_constant (constantEnv_reliable w) hs h2 (by omega) fun _ _ => rfl)

theorem reads {c : Nat} (h2 : 2 ≤ c) (hc : c < s.bootSector.getTotalClusters) (w : UInt8)
    (buffer : Bytes) {x : Nat}
    (hx : x < s.bootSector.bytesPerSector * s.bootSector.sectorsPerCluster) :
    (if s.clusterToSector c = 0 then buffer
      else gather (s.sectorPlace c) (s.putImage c fun _ => w) s.bootSector.sectorsPerCluster 0 buffer) x
      = w := by
  have hround := h.constant hs hspc h2 hc w
  obtain ⟨out, hrun, hout⟩ := hround.same (constantEnv w) (constantEnv_reliable w) buffer
  rw [run_readCluster_withDisk (constantEnv_reliable w) h2 hc] at hrun
  cases hrun
  exact hout x hx

/-- A cluster at sector 0 is not read. -/
theorem clusterToSector_ne_zero (hbps : 0 < s.bootSector.bytesPerSector) {c : Nat} (h2 : 2 ≤ c)
    (hc : c < s.bootSector.getTotalClusters) : s.clusterToSector c ≠ 0 := by
  intro hzero
  have hpos := Nat.mul_pos hbps (Nat.pos_of_ne_zero hspc)
  have hread := h.reads hs hspc h2 hc 0 (fun _ => 0 + 1) hpos
  rw [if_pos hzero] at hread
  exact byte_add_one_ne 0 hread

/-- Behind 512 bytes for every sector the buffer stays as it was. -/
theorem bytesPerSector_le (hbps : 0 < s.bootSector.bytesPerSector)
    (htotal : 2 < s.bootSector.getTotalClusters) : s.bootSector.bytesPerSector ≤ 512 := by
  by_contra hgt
  have hlt : 512 * s.bootSector.sectorsPerCluster
      < s.bootSector.bytesPerSector * s.bootSector.sectorsPerCluster :=
    Nat.mul_lt_mul_of_pos_right (by omega) (Nat.pos_of_ne_zero hspc)
  have hread := h.reads hs hspc (Nat.le_refl 2) htotal 0 (fun _ => 0 + 1) hlt
  rw [if_neg (h.clusterToSector_ne_zero hs hspc hbps (Nat.le_refl 2) htotal),
    gather_outside (by omega)] at hread
  exact byte_add_one_ne 0 hread

/-- The first byte of cluster 2 after a write of another byte than it had. -/
theorem reads_first (hbps : 0 < s.bootSector.bytesPerSector)
    (htotal : 2 < s.bootSector.getTotalClusters) (w : UInt8) :
    Sector.bytes (s.putImage 2 (fun _ => w) (s.sectorPlace 2 0)) 0 = w := by
  have hpos := Nat.mul_pos hbps (Nat.pos_of_ne_zero hspc)
  have hread := h.reads hs hspc (Nat.le_refl 2) htotal w (fun _ => 0) hpos
  rw [if_neg (h.clusterToSector_ne_zero hs hspc hbps (Nat.le_refl 2) htotal),
    gather_inside (by omega) (by omega)] at hread
  exact hread

/-- With a root directory the write goes behind the sector that the read looks at first. -/
theorem rootEntryCount_eq (hbps : 0 < s.bootSector.bytesPerSector)
    (hroot : s.bootSector.rootEntryCount < 2 ^ 16) (hsize : s.bootSector.sectorsPerCluster < 2 ^ 8)
    (htotal : 2 < s.bootSector.getTotalClusters) : s.bootSector.rootEntryCount = 0 := by
  by_contra hne
  obtain ⟨hlow, hhigh⟩ := BootSector.rootDirSectors_bounds hbps hne
  have hread := h.reads_first hs hspc hbps htotal
    (Sector.bytes (s.disk (s.sectorPlace 2 0)) 0 + 1)
  unfold Fs.putImage at hread
  rw [putSectors_outside fun j _ hj => ?_] at hread
  · exact byte_add_one_ne _ hread.symm
  · unfold Fs.sectorPlace
    omega

/-- Where there are more sectors than the ATA driver can tell apart, a cluster has its first sector in
common with cluster 2. -/
theorem room (hbps : 0 < s.bootSector.bytesPerSector)
    (hpower : 2 ^ 28 % s.bootSector.sectorsPerCluster = 0)
    (htotal : 2 < s.bootSector.getTotalClusters) :
    (s.bootSector.getTotalClusters - 2) * s.bootSector.sectorsPerCluster ≤ 2 ^ 28 := by
  by_contra hgt
  obtain ⟨k, hk⟩ : ∃ k, k * s.bootSector.sectorsPerCluster = 2 ^ 28 :=
    ⟨_, Nat.div_mul_cancel (Nat.dvd_of_mod_eq_zero hpower)⟩
  have hkt : k < s.bootSector.getTotalClusters - 2 := by
    rw [← hk] at hgt
    exact Nat.lt_of_mul_lt_mul_right (Nat.lt_of_not_le hgt)
  have hk0 : k ≠ 0 := by
    rintro rfl
    omega
  have hd2 : 2 ≤ 2 + k := by omega
  have hd : 2 + k < s.bootSector.getTotalClusters := by omega
  have hplace : s.sectorPlace (2 + k) 0 = s.sectorPlace 2 0 := by
    unfold Fs.sectorPlace
    rw [Nat.add_sub_cancel_left, hk]
    omega
  have hround := h.constant hs hspc (Nat.le_refl 2) htotal
    (Sector.bytes (s.disk (s.sectorPlace 2 0)) 0 + 1)
  have hother := hround.others (constantEnv 0) (constantEnv_reliable 0) (fun _ => 0) (2 + k) hd2 hd
    (by omega)
  have hstart := h.clusterToSector_ne_zero hs hspc hbps hd2 hd
  rw [run_readCluster_withDisk (constantEnv_reliable 0) hd2 hd,
    run_readCluster_reliable (constantEnv_reliable 0) hd2 hd, if_neg hstart, if_neg hstart] at hother
  have hbyte := congrFun (Option.some.inj hother) 0
  dsimp only at hbyte
  rw [gather_inside (by omega) (by omega), gather_inside (by omega) (by omega), Nat.zero_div, hplace,
    h.reads_first hs hspc hbps htotal] at hbyte
  exact byte_add_one_ne _ hbyte

end Fs.RoundTrips

/-- A power of two below 256 divides the number of places. -/
theorem places_mod {n : Nat} (hn : n < 2 ^ 8) (h : n ≠ 0 ∧ n &&& (n - 1) = 0) : 2 ^ 28 % n = 0 := by
  obtain ⟨k, rfl⟩ := Nat.ne_zero_and_sub_one_eq_zero_iff_isPowerOfTwo.mp h
  have hk : k < 8 := (Nat.pow_lt_pow_iff_right (by decide)).mp hn
  exact Nat.mod_eq_zero_of_dvd (Nat.pow_dvd_pow 2 (by omega))

/-- **Round trip.** On a boot sector with fields that pass the checks, what is written to a cluster is
what is read from it, and the other clusters are read as before, exactly when there are no clusters
or their sectors are the same for the write and the read. -/
theorem roundTrips_iff {b : Bytes} (hv : (BootSector.ofBytes b).Validated) {s : Fs}
    (hb : s.bootSector = BootSector.ofBytes b) (hs : s.SameDrive) :
    s.RoundTrips ↔ s.bootSector.getTotalClusters ≤ 2 ∨ s.SameSectors := by
  rw [← hb] at hv
  have hspc := hv.sectorsPerCluster.1
  have hsize : s.bootSector.sectorsPerCluster < 2 ^ 8 := by
    rw [hb]
    exact (b 13).toNat_lt
  have hroot : s.bootSector.rootEntryCount < 2 ^ 16 := by
    rw [hb]
    exact load16_lt b 17
  have hbps : 0 < s.bootSector.bytesPerSector ∧
      (s.bootSector.bytesPerSector ≤ 512 → s.bootSector.bytesPerSector = 512) := by
    have hor := hv.bytesPerSector
    omega
  constructor
  · intro h
    rcases Nat.lt_or_ge 2 s.bootSector.getTotalClusters with htotal | htotal
    · right
      exact {
        bytesPerSector := hbps.2 (h.bytesPerSector_le hs hspc hbps.1 htotal)
        rootEntryCount := h.rootEntryCount_eq hs hspc hbps.1 hroot hsize htotal
        room := h.room hs hspc hbps.1 (places_mod hsize hv.sectorsPerCluster) htotal
        start := fun c h2 hc => (clusterToSector_ne_zero_iff h2 hc).mp
          (h.clusterToSector_ne_zero hs hspc hbps.1 h2 hc) }
    · exact Or.inl htotal
  · rintro (htotal | hsame)
    · intro c h2 hc
      omega
    · exact hsame.roundTrips hs hspc

/-- A disk with this boot sector and zeros behind it, mounted. -/
def headerFs (rootEntryCount totalSectors : Nat) : Fs where
  disks := fun _ lba =>
    if lba = 0 then Sector.ofBytes (header rootEntryCount totalSectors) 0 else fun _ => 0
  currentDrive := ⟨0, true⟩
  ataBaseAddress := 0
  bootSector := BootSector.ofBytes (header rootEntryCount totalSectors)
  fsinfo := fun _ => 0
  fsinfoValid := false
  currentDirectoryCluster := 2
  partitionLbaOffset := 0

/-- `roundTrips_iff` for a volume of 12 sectors without a root directory. -/
theorem roundTrips_iff_twelve : (headerFs 0 12).RoundTrips := by
  refine (roundTrips_iff (s := headerFs 0 12) (header_accepted 0 12).fields rfl rfl).mpr (Or.inr ?_)
  refine ⟨rfl, rfl, by decide, fun c h2 hc => ?_⟩
  change c < 8 at hc
  change (4 + (c - 2) * 1) % 2 ^ 32 ≠ 0
  omega

/-- The boot sector is accepted, and with 512 root entries a cluster is written 32 sectors behind the
place where it is read: the write returns `true`, and the read still gives the zeros that were there. -/
theorem not_roundTrips_rootEntries :
    (∃ s', (fat32InitFsWith bootSectorSignature ⟨0, true⟩).run (constantEnv 0xFF) (headerFs 512 64)
      = some (true, s')) ∧ ¬ (headerFs 512 64).RoundTrips ∧
    ∃ s' out, (writeCluster 2 fun _ => 0xFF).run (constantEnv 0xFF) (headerFs 512 64) = some (true, s') ∧
      (readCluster 2 fun _ => 0xAA).run (constantEnv 0xFF) s' = some (out, s') ∧ out 0 = 0 := by
  have hwrite := run_writeCluster_constant (s := headerFs 512 64) (c := 2) (w := 0xFF)
    (constantEnv_reliable 0xFF) rfl (Nat.le_refl 2) (by decide) fun _ _ => rfl
  have hread := run_readCluster_withDisk (s := headerFs 512 64) (c := 2) (constantEnv_reliable 0xFF)
    (Nat.le_refl 2) (by decide) (fun _ => 0xAA) ((headerFs 512 64).putImage 2 fun _ => 0xFF)
  have hzero : gather ((headerFs 512 64).sectorPlace 2) ((headerFs 512 64).putImage 2 fun _ => 0xFF)
      1 0 (fun _ => 0xAA) 0 = 0 := by
    rw [gather_inside (by omega) (by omega)]
    unfold Fs.putImage
    rw [putSectors_outside (d := (headerFs 512 64).disk) fun j _ hj => ?_]
    · rfl
    · have hj0 : j = 0 := Nat.lt_one_iff.mp hj
      rw [hj0]
      decide
  rw [if_neg (by decide)] at hread
  refine ⟨?_, fun h => ?_, _, _, hwrite, hread, hzero⟩
  · rw [fat32InitFsWith_accepts_iff]
    exact ⟨rfl, rfl, (header_accepted 512 64).fields⟩
  · obtain ⟨out, hrun, hout⟩ := (h 2 (Nat.le_refl 2) (by decide) _ _ (constantEnv_reliable 0xFF) _
      hwrite).same (constantEnv 0xFF) (constantEnv_reliable 0xFF) fun _ => 0xAA
    rw [hread] at hrun
    cases hrun
    have hbyte := (hout 0 (by decide)).symm.trans hzero
    exact absurd hbyte (by decide)

end MicroKernel.Fat32
