import MicroKernel.Ext2.Directory

set_option autoImplicit false

/-! # When `ext2_read_dir` is safe

The lengths of a record and of its name come from the disk. The walk stays inside the block buffer and
inside the fields of the entries exactly where every record that is walked has its head in the block,
and every one that is copied has its name there, of fewer than 255 characters
(`readsDirSafely_iff`).
-/

namespace MicroKernel.Ext2

open MicroKernel.Lib Bytes
open MicroKernel.Fat32 (Env Fs Sector run_within)

namespace Ext2Fs

variable (fs : Ext2Fs)

/-- The access is to the block buffer, or to a field of an entry of the array. -/
def InFields (maxEntries : Nat) : Access → Prop
  | .read a n => a + n ≤ fs.blockSize
  | .write i a n => i < maxEntries ∧ a + n ≤ entrySize

instance (maxEntries : Nat) : DecidablePred (fs.InFields maxEntries)
  | .read a n => inferInstanceAs (Decidable (a + n ≤ fs.blockSize))
  | .write i a n => inferInstanceAs (Decidable (i < maxEntries ∧ a + n ≤ entrySize))

/-- `ext2_read_dir` returns, with a number of entries for which there is room, and touches nothing
else. -/
def ReadsDirSafely (s : Fs) (n maxEntries count : Nat) : Prop :=
  ∀ (e : Env) (entries : Bytes), ∃ ok entries' count' s',
    (ext2ReadDirChecked (fs.InFields maxEntries) fs maxEntries n entries count).run e s
        = some ((ok, entries', count'), s') ∧ count' ≤ maxEntries

/-- The number of entries was in range, there is no division by zero, and if the inode is that of a
directory, then in each block that is walked every record has its fields in the block, and the name of
every record that is copied has fewer than 255 characters. -/
structure HoldsRecords (s : Fs) (n maxEntries count : Nat) : Prop where
  count_le : count ≤ maxEntries
  group : n = 0 ∨ 0 < fs.superblock.inodesPerGroup
  records : ∀ junk : Bytes, 0 < n → fs.ext2GetInodeBlockGroup n < fs.numBlockGroups →
    IsDirectory (fs.inodeIn (s.disks fs.drive) junk n) →
    ∀ k, fs.IsWalked (s.disks fs.drive) (fs.inodeIn (s.disks fs.drive) junk n) maxEntries k →
      fs.RecordsFit (fs.dirBlock (s.disks fs.drive) (fs.inodeIn (s.disks fs.drive) junk n) k)
        (fs.dirEnd (fs.inodeIn (s.disks fs.drive) junk n) k) maxEntries (fun _ len => len < 255) 0
        (fs.recordsBefore (s.disks fs.drive) (fs.inodeIn (s.disks fs.drive) junk n) k)

end Ext2Fs

section safety

variable {fs : Ext2Fs} {s : Fs} {n maxEntries count : Nat}

theorem Ext2Fs.bounds_inFields (fs : Ext2Fs) (maxEntries : Nat) :
    Bounds fs maxEntries (fun _ len => len < 255) (fs.InFields maxEntries) := by
  refine ⟨fun a n => Iff.rfl, fun i n hi => ?_⟩
  unfold InFields entrySize
  dsimp only
  omega

/-- Where a directory is read safely, its records are inside. -/
theorem Ext2Fs.ReadsDirSafely.holdsRecords (h : fs.ReadsDirSafely s n maxEntries count)
    (hfs : AcceptedSize fs.blockSize) : fs.HoldsRecords s n maxEntries count := by
  have hbounds := fs.bounds_inFields maxEntries
  have hread : ∀ a n, fs.InFields maxEntries (.read a n) → a + n ≤ fs.blockSize := fun _ _ h => h
  have hgroup : n = 0 ∨ 0 < fs.superblock.inodesPerGroup := by
    by_contra hzero
    obtain ⟨ok, entries', count', s', hrun, -⟩ := h Fat32.quietEnv fun _ => 0
    unfold ext2ReadDirChecked at hrun
    rw [Prog.run_bind, run_within, run_ext2ReadInode_diverges (by omega) (by omega)] at hrun
    cases hrun
  refine ⟨?_, hgroup, fun junk hn hin hdir k hwalked => ?_⟩
  · -- where every read fails, the number is that of the caller
    obtain ⟨r, hinode, -, -, hnone⟩ := run_ext2ReadInode_any hfs.hasBlocks hgroup
      ({ Fat32.quietEnv with fault := fun _ => true }.enter .find) s
    obtain ⟨ok, entries', count', s', hrun, hle⟩ := h { Fat32.quietEnv with fault := fun _ => true }
      fun _ => 0
    rw [run_ext2ReadDirChecked_none hinode (fun inode hr => by
      rw [hnone fun _ => rfl] at hr
      cases hr)] at hrun
    cases hrun
    exact hle
  · have he : Env.Reliable { Fat32.quietEnv with junk := fun _ => junk } := fun _ => rfl
    obtain ⟨r, hinode, hbytes, hsome, -⟩ := run_ext2ReadInode_any hfs.hasBlocks hgroup
      ({ Fat32.quietEnv with junk := fun _ => junk }.enter .find) s
    obtain ⟨inode, rfl⟩ := Option.ne_none_iff_exists'.mp (hsome (he.enter _) hn hin)
    obtain rfl : inode = fs.inodeIn (s.disks fs.drive) junk n := (hbytes _ rfl).2
    obtain ⟨ok, entries', count', s', hrun, -⟩ := h { Fat32.quietEnv with junk := fun _ => junk }
      fun _ => 0
    have hwalk := run_ext2ReadDirChecked hread hfs.hasBlocks hinode hdir (fun _ => 0) maxEntries count
    rw [hrun] at hwalk
    obtain ⟨-, -, hall, hok⟩ := hwalk
    exact hbounds.directory_iff.mp (hall (hok he)).1 k hwalked

/-- **When `ext2_read_dir` is safe.** -/
theorem readsDirSafely_iff (hfs : AcceptedSize fs.blockSize) (s : Fs) (n maxEntries count : Nat) :
    fs.ReadsDirSafely s n maxEntries count ↔ fs.HoldsRecords s n maxEntries count := by
  have hbounds := fs.bounds_inFields maxEntries
  have hread : ∀ a n, fs.InFields maxEntries (.read a n) → a + n ≤ fs.blockSize := fun _ _ h => h
  constructor
  · exact fun h => h.holdsRecords hfs
  · rintro ⟨hcount, hgroup, hrecords⟩ e entries
    obtain ⟨r, hinode, hbytes, -, -⟩ := run_ext2ReadInode_any hfs.hasBlocks hgroup (e.enter .find) s
    by_cases hdir : ∃ inode, r = some inode ∧ IsDirectory inode
    · obtain ⟨inode, rfl, hdir⟩ := hdir
      obtain ⟨⟨hn, hin⟩, hbytes⟩ := hbytes inode rfl
      rw [hbytes] at hdir
      have hall := hbounds.directory_iff.mpr (hrecords _ hn hin hdir)
      rw [← hbytes] at hdir hall
      have hwalk := run_ext2ReadDirChecked hread hfs.hasBlocks hinode hdir entries maxEntries count
      obtain ⟨ok, r, hrun, hle, -, -⟩ := hwalk.returns hall
      exact ⟨ok, r.1, r.2, s, hrun, hle⟩
    · exact ⟨false, entries, count, s, run_ext2ReadDirChecked_none hinode
        (fun inode hr hinode => hdir ⟨inode, hr, hinode⟩) entries maxEntries count, hcount⟩

end safety

/-! ## A directory with one block -/

/-- The inode table of `volumeOf 1024`: inode 2 is that of a directory, which has block 9. -/
def directoryTable : Bytes := store32 (store32 (store16 (fun _ => 0) 128 0x41ED) 132 1024) 168 9

/-- A disk with that table and a block 9. -/
def directoryDisk (block : Bytes) : Disk := fun lba =>
  if lba = 10 then Sector.ofBytes directoryTable 0
  else if lba = 18 then Sector.ofBytes block 0
  else if lba = 19 then Sector.ofBytes block 512
  else zeros

/-- A record at `x`. -/
def withRecord (b : Bytes) (x inode len : Nat) (name : List UInt8) : Bytes :=
  copy (store8 (store16 (store32 b x inode) (x + 4) len) (x + 6) (UInt8.ofNat name.length)) (x + 8)
    (fun i => name.getD i 0) 0 name.length

section image

variable {block inode : Bytes}

/-- Inode 2 of the disk. -/
theorem directoryDisk_inodeBytes (block : Bytes) :
    Filled ((volumeOf 1024).inodeBytes (directoryDisk block) 2) directoryTable 128 128 := by
  intro x hx
  have hblock : (volumeOf 1024).inodeBlock 2 * (volumeOf 1024).sectorsPerBlock = 10 := by decide
  have hoffset : (volumeOf 1024).inodeOffset 2 = 128 := by decide
  unfold Ext2Fs.inodeBytes Ext2Fs.blockBytes joined
  dsimp only
  rw [hoffset, hblock, Nat.div_eq_of_lt (by omega), Nat.mod_eq_of_lt (by omega)]
  exact (Sector.bytes_ofBytes directoryTable 0 (x := 128 + x) (by omega)).trans
    (congrArg directoryTable (Nat.zero_add _))

theorem volumeOf_hasInode : (volumeOf 1024).HasInode 2 := by
  refine ⟨by decide, by decide, by decide, by decide, ?_⟩
  unfold Ext2Fs.Reaches
  decide

/-- What the driver gives for inode 2. -/
theorem directoryDisk_inodeIn (block junk : Bytes) :
    Filled ((volumeOf 1024).inodeIn (directoryDisk block) junk 2) directoryTable 128 128 := by
  intro x hx
  have hinode := volumeOf_hasInode
  have hblocks : (volumeOf 1024).HasBlocks := AcceptedSize.hasBlocks ⟨0, by decide, rfl⟩
  obtain ⟨hblock, hoffset⟩ := hinode.addressed hblocks
  have hinside := hinode.inside
  unfold Ext2Fs.inodeIn
  rw [hblock, hoffset, copy_inside _ _ _ (Nat.zero_le _) (by omega), Nat.zero_add, Nat.sub_zero,
    Ext2Fs.addressedBytes_eq hblocks hinode.reach _ (by omega)]
  exact directoryDisk_inodeBytes block x hx

section inode

variable (h : Filled inode directoryTable 128 128)
include h

theorem directoryTable_mode : IsDirectory inode := by
  have hmode : iMode inode = 0x41ED := by
    unfold iMode load16
    rw [h 0 (by decide), h 1 (by decide)]
    decide
  unfold IsDirectory
  rw [hmode]
  decide

theorem directoryTable_size : iSize inode = 1024 :=
  (load32_congr fun i _ => (h (4 + i) (by omega)).trans (by rw [← Nat.add_assoc])).trans
    (show load32 directoryTable 132 = 1024 by decide)

theorem directoryTable_iBlock : iBlock inode 0 = 9 :=
  (load32_congr fun i _ => (h (40 + i) (by omega)).trans (by rw [← Nat.add_assoc])).trans
    (show load32 directoryTable 168 = 9 by decide)

end inode

/-- Block 9 of the disk. -/
theorem directoryDisk_block (block : Bytes) {x : Nat} (hx : x < 1024) :
    (volumeOf 1024).addressedBytes (directoryDisk block) 9 x = block x := by
  have hfirst : (volumeOf 1024).sectorNumber 9 0 = 18 := by decide
  have hsecond : (volumeOf 1024).sectorNumber 9 1 = 19 := by decide
  have hmod : x % 512 < 512 := Nat.mod_lt x (by decide)
  unfold Ext2Fs.addressedBytes joined
  dsimp only
  rcases (show x / 512 = 0 ∨ x / 512 = 1 by omega) with h | h
  · rw [h, hfirst]
    exact (Sector.bytes_ofBytes block 0 hmod).trans (congrArg block (by omega))
  · rw [h, hsecond]
    exact (Sector.bytes_ofBytes block 512 hmod).trans (congrArg block (by omega))

theorem directoryDisk_isWalked (h : Filled inode directoryTable 128 128) (d : Disk)
    {maxEntries k : Nat} (hmax : 0 < maxEntries) :
    (volumeOf 1024).IsWalked d inode maxEntries k ↔ k = 0 := by
  have hsize : (volumeOf 1024).blockSize = 1024 := rfl
  constructor
  · rintro ⟨-, hlt, -⟩
    rw [directoryTable_size h, hsize] at hlt
    omega
  · rintro rfl
    refine ⟨by decide, by rw [directoryTable_size h]; decide, fun j hj => ?_, hmax⟩
    obtain rfl : j = 0 := by omega
    rw [directoryTable_iBlock h]
    decide

/-- A block with one record. -/
theorem directoryDisk_recordsFit (h : Filled inode directoryTable 128 128)
    (h0 : entryInode block 0 ≠ 0) (hlen : recLen block 0 = 1024) (maxEntries : Nat)
    (room : Nat → Nat → Prop) :
    (volumeOf 1024).RecordsFit ((volumeOf 1024).dirBlock (directoryDisk block) inode 0)
      ((volumeOf 1024).dirEnd inode 0) maxEntries room 0 0 ↔
      (0 < maxEntries → room 0 (nameLen block 0)) := by
  have hsame : ∀ x, x < (volumeOf 1024).blockSize →
      (volumeOf 1024).dirBlock (directoryDisk block) inode 0 x = block x := by
    intro x hx
    unfold Ext2Fs.dirBlock
    rw [directoryTable_iBlock h]
    exact directoryDisk_block block hx
  have hinode := entryInode_congr hsame (x := 0) (by decide)
  have hrec := (recLen_congr hsame (x := 0) (by decide)).trans hlen
  have hname := nameLen_congr hsame (x := 0) (by decide)
  have hle := nameLen_le block 0
  have hend : (volumeOf 1024).dirEnd inode 0 = 1024 := by
    unfold Ext2Fs.dirEnd
    rw [directoryTable_size h]
    rfl
  have hsize : (volumeOf 1024).blockSize = 1024 := rfl
  rw [hend, Ext2Fs.RecordsFit.cons_iff ⟨by decide, by rw [hinode]; exact h0, by rw [hrec]; decide,
    by rw [hrec]; decide⟩, hrec, hname, Ext2Fs.RecordsFit.nil_iff (by omega)]
  constructor
  · exact fun h hmax => (h.2.1 hmax).2
  · exact fun h => ⟨by decide, fun hmax => ⟨by omega, h hmax⟩, fun hlt => absurd hlt (by decide)⟩

end image

/-- A directory with an entry of one character. -/
theorem readsDirSafely_iff_one : (volumeOf 1024).ReadsDirSafely
    (onEveryDrive (directoryDisk (withRecord (fun _ => 0) 0 11 1024 [0x61]))) 2 64 0 := by
  refine (readsDirSafely_iff ⟨0, by decide, rfl⟩ _ 2 64 0).mpr
    ⟨by decide, Or.inr (by decide), fun junk _ _ _ k hwalked => ?_⟩
  have hinode := directoryDisk_inodeIn (withRecord (fun _ => 0) 0 11 1024 [0x61]) junk
  obtain rfl := (directoryDisk_isWalked hinode _ (by decide)).mp hwalked
  exact (directoryDisk_recordsFit hinode (by decide) (by decide) 64 _).mpr fun _ => by decide

/-- A directory with an entry of 255 characters. -/
theorem not_readsDirSafely : ¬ ∀ (fs : Ext2Fs) (s : Fs) (n maxEntries : Nat),
    AcceptedSize fs.blockSize → fs.ReadsDirSafely s n maxEntries 0 := by
  intro hall
  have hfs : AcceptedSize (volumeOf 1024).blockSize := ⟨0, by decide, rfl⟩
  have hholds := (hall (volumeOf 1024) (onEveryDrive (directoryDisk
    (withRecord (fun _ => 0) 0 11 1024 (List.replicate 255 0x61)))) 2 64 hfs).holdsRecords hfs
  have hinode := directoryDisk_inodeIn (withRecord (fun _ => 0) 0 11 1024 (List.replicate 255 0x61))
    fun _ => 0
  have hfit := hholds.records (fun _ => 0) (by decide) (by decide) (directoryTable_mode hinode) 0
    ((directoryDisk_isWalked hinode _ (by decide)).mpr rfl)
  have hlt := (directoryDisk_recordsFit hinode (by decide) (by decide) 64 _).mp hfit
    (by decide)
  exact absurd hlt (by decide +kernel)

end MicroKernel.Ext2
