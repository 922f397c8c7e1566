import MicroKernel.Ext2.Read
import MicroKernel.Fat32.Image

set_option autoImplicit false

/-! # When `ext2_read_file` reads the file

For every inode, and any offset and size, the file is what its direct blocks have. It is read as it
should be exactly when the end of what is asked for does not wrap around in front of the end of the
file, no block of 64 KB is asked for as a whole, and the driver can reach the blocks
(`readsFile_iff`).
-/

namespace MicroKernel.Ext2

open MicroKernel.Lib Bytes
open MicroKernel.Fat32 (Env Fs Sector)

/-- The block sizes that `ext2_init` accepts: 1 KB to 64 KB. -/
def AcceptedSize (n : Nat) : Prop := ∃ k, k ≤ 6 ∧ n = 1024 * 2 ^ k

namespace Ext2Fs

variable (fs : Ext2Fs)

/-- How many bytes of the file there are to read. -/
def toRead (inode : Bytes) (offset size : Nat) : Nat :=
  min size (min (iSize inode - offset) (12 * fs.blockSize - offset))

/-- The read returns as many bytes as there are, the buffer begins with them, and nothing is written
behind them. -/
def ReadsFile (inode : Bytes) (offset size : Nat) : Prop :=
  ∀ (e : Env) (s : Fs) (buffer : Bytes), e.Reliable → ∃ buffer',
    (ext2ReadFile fs inode offset size buffer).run e s
        = some ((fs.toRead inode offset size, buffer'), s) ∧
      Filled buffer' (fs.fileBytes (s.disks fs.drive) inode) offset (fs.toRead inode offset size) ∧
      ∀ x, fs.toRead inode offset size ≤ x → buffer' x = buffer x

/-- The sum of offset and size does not wrap, or does no harm; the blocks can be reached; and `memcpy`
is not asked for 64 KB. -/
structure ReadsWhole (inode : Bytes) (offset size : Nat) : Prop where
  bounded : fs.toRead inode offset size = 0 ∨ offset + size < 2 ^ 32 ∨
    12 * fs.blockSize ≤ iSize inode
  reach : ∀ x, offset ≤ x → x < offset + fs.toRead inode offset size →
    iBlock inode (x / fs.blockSize) ≠ 0 → fs.Reaches (iBlock inode (x / fs.blockSize))
  copied : ∀ k, ¬ fs.Skips inode offset (fs.toRead inode offset size) k

end Ext2Fs

/-! ## Sizes -/

section sizes

variable {fs : Ext2Fs} {inode : Bytes} {offset size : Nat}

/-- A block of an accepted size is a power of two of sectors. -/
theorem AcceptedSize.sectors (h : AcceptedSize fs.blockSize) :
    ∃ k, k ≤ 6 ∧ fs.blockSize = 1024 * 2 ^ k ∧ fs.sectorsPerBlock = 2 * 2 ^ k := by
  obtain ⟨k, hk, hsize⟩ := h
  refine ⟨k, hk, hsize, ?_⟩
  unfold Ext2Fs.sectorsPerBlock
  rw [hsize, show 1024 * 2 ^ k = 512 * (2 * 2 ^ k) by omega, Nat.mul_div_cancel_left _ (by decide)]

theorem AcceptedSize.hasBlocks (h : AcceptedSize fs.blockSize) : fs.HasBlocks := by
  obtain ⟨k, hk, hsize, hsectors⟩ := h.sectors
  have hpow : 2 ^ k ≤ 2 ^ 6 := Nat.pow_le_pow_right (by decide) hk
  have hpos : 0 < 2 ^ k := Nat.two_pow_pos k
  exact ⟨by omega, by omega, by omega⟩

/-- The offset of 32 bits wraps by a multiple of the size of a block. -/
theorem AcceptedSize.u32_mod {n : Nat} (h : AcceptedSize n) (x : Nat) : u32 x % n = x % n := by
  obtain ⟨k, hk, hsize⟩ := h
  have hdvd : n ∣ 2 ^ 32 := by
    rw [hsize, show 1024 * 2 ^ k = 2 ^ (10 + k) from (Nat.pow_add 2 10 k).symm]
    exact Nat.pow_dvd_pow 2 (by omega)
  exact Nat.mod_mod_of_dvd x hdvd

/-- A block that is not in reach begins behind the sectors that are. -/
theorem AcceptedSize.le_of_not_reaches (h : AcceptedSize fs.blockSize) {b : Nat}
    (hb : ¬ fs.Reaches b) : 2 ^ 28 ≤ b * fs.sectorsPerBlock := by
  obtain ⟨k, hk, -, hsectors⟩ := h.sectors
  have hsplit : 2 ^ 28 = 2 ^ (27 - k) * (2 * 2 ^ k) := by
    rw [← Nat.pow_succ', ← Nat.pow_add]
    congr 1
    omega
  unfold Ext2Fs.Reaches at hb
  rw [hsectors, hsplit, Nat.not_le] at hb
  rw [hsectors, hsplit]
  exact Nat.mul_le_mul_right _ (Nat.le_of_lt_succ (Nat.lt_of_mul_lt_mul_right hb))

theorem Ext2Fs.bytesRead_le (fs : Ext2Fs) (inode : Bytes) (offset size : Nat) :
    fs.bytesRead inode offset size ≤ sizeToEnd inode offset size ∧
      fs.bytesRead inode offset size ≤ 12 * fs.blockSize - offset := by
  unfold bytesRead
  split <;> omega

/-- **The number of bytes is right** unless the end of what is asked for wraps. -/
theorem Ext2Fs.bytesRead_eq_iff (fs : Ext2Fs) (hoffset : offset < 2 ^ 32) (hsize : size < 2 ^ 32) :
    fs.bytesRead inode offset size = fs.toRead inode offset size ↔
      fs.toRead inode offset size = 0 ∨ offset + size < 2 ^ 32 ∨ 12 * fs.blockSize ≤ iSize inode := by
  have hend : iSize inode < 2 ^ 32 := load32_lt _ _
  have hwrap : offset + size < 2 ^ 32 ∧ u32 (offset + size) = offset + size ∨
      2 ^ 32 ≤ offset + size ∧ u32 (offset + size) + 2 ^ 32 = offset + size := by
    unfold u32
    omega
  unfold bytesRead toRead sizeToEnd
  split
  · omega
  · split <;> omega

/-- What is skipped of the bytes that are read is what is skipped of the bytes asked for. -/
theorem Ext2Fs.skips_bytesRead {k : Nat} (hk : k < 12) (hoffset : offset < 12 * fs.blockSize)
    (hin : offset < iSize inode) :
    fs.Skips inode offset (fs.bytesRead inode offset size) k ↔
      fs.Skips inode offset (sizeToEnd inode offset size) k := by
  have hlast : (k + 1) * fs.blockSize ≤ 12 * fs.blockSize := Nat.mul_le_mul_right _ hk
  unfold Skips bytesRead
  rw [if_neg (Nat.not_le.mpr hin)]
  omega

end sizes

/-! ## Reads -/

/-- A sector of ones. -/
def ones : Sector := fun _ => 1

/-- A sector of zeros. -/
def zeros : Sector := fun _ => 0

/-- A state in which every drive has the contents `d`. -/
def onEveryDrive (d : Disk) : Fs where
  disks := fun _ => d
  currentDrive := ⟨0x1F0, true⟩
  ataBaseAddress := 0x1F0
  bootSector := ⟨512, 1, 1, 1, 0, 0, 1, 2, 1⟩
  fsinfo := zeros
  fsinfoValid := false
  currentDirectoryCluster := 2
  partitionLbaOffset := 0

theorem onEveryDrive_disks (d : Disk) (drive : Fat32.Drive) : (onEveryDrive d).disks drive = d := rfl

section reads

variable {fs : Ext2Fs} {inode : Bytes} {offset size : Nat}

/-- A byte of a block that is there. -/
theorem fileBytes_of_block (d : Disk) {x : Nat} (h0 : iBlock inode (x / fs.blockSize) ≠ 0) :
    fs.fileBytes d inode x = Sector.bytes (d (iBlock inode (x / fs.blockSize) * fs.sectorsPerBlock
      + x % fs.blockSize / 512)) (x % fs.blockSize % 512) := by
  unfold Ext2Fs.fileBytes Ext2Fs.blockBytes joined
  dsimp only
  rw [if_neg h0]

theorem addressedFile_of_block (d : Disk) {x : Nat} (h0 : iBlock inode (x / fs.blockSize) ≠ 0) :
    fs.addressedFile d inode x = Sector.bytes (d (fs.sectorNumber (iBlock inode (x / fs.blockSize))
      (x % fs.blockSize / 512))) (x % fs.blockSize % 512) := by
  unfold Ext2Fs.addressedFile Ext2Fs.addressedBytes joined
  dsimp only
  rw [if_neg h0]

theorem bytes_zeros (x : Nat) : Sector.bytes zeros x = 0 := by
  unfold Sector.bytes zeros
  split <;> rfl

theorem bytes_ones {x : Nat} (hx : x < 512) : Sector.bytes ones x = 1 := by
  unfold Sector.bytes ones
  rw [dif_pos hx]

/-- When a read is right, so is its number of bytes. -/
theorem Ext2Fs.ReadsFile.count (h : fs.ReadsFile inode offset size) (hfs : fs.HasBlocks) :
    fs.bytesRead inode offset size = fs.toRead inode offset size := by
  obtain ⟨b, hrun, -, -⟩ := h Fat32.quietEnv (onEveryDrive fun _ => zeros) (fun _ => 0)
    Fat32.quietEnv_reliable
  obtain ⟨b', hrun', -⟩ := run_ext2ReadFile (s := onEveryDrive fun _ => zeros)
    Fat32.quietEnv_reliable hfs inode offset size fun _ => 0
  rw [hrun] at hrun'
  exact (congrArg (fun r => r.1.1) (Option.some.inj hrun')).symm

/-- When a read is right, every disk and every buffer shows it. -/
theorem Ext2Fs.ReadsFile.byte (h : fs.ReadsFile inode offset size) (hfs : fs.HasBlocks) (d : Disk)
    (buffer : Bytes) {x : Nat} (hx : x < fs.toRead inode offset size) :
    (if fs.Skips inode offset (sizeToEnd inode offset size) ((offset + x) / fs.blockSize)
      then buffer x else fs.addressedFile d inode (offset + x))
      = fs.fileBytes d inode (offset + x) := by
  obtain ⟨b, hrun, hfill, -⟩ := h Fat32.quietEnv (onEveryDrive d) buffer Fat32.quietEnv_reliable
  obtain ⟨b', hrun', hupto⟩ := run_ext2ReadFile (s := onEveryDrive d) Fat32.quietEnv_reliable hfs
    inode offset size buffer
  rw [h.count hfs] at hrun' hupto
  rw [hrun] at hrun'
  have hsame : b = b' := congrArg (fun r => r.1.2) (Option.some.inj hrun')
  rw [hsame] at hfill
  exact (hupto.read x hx).symm.trans (hfill x hx)

/-- **When a file is read as it should be.** -/
theorem readsFile_iff (hfs : AcceptedSize fs.blockSize) (inode : Bytes) (hoffset : offset < 2 ^ 32)
    (hsize : size < 2 ^ 32) :
    fs.ReadsFile inode offset size ↔ fs.ReadsWhole inode offset size := by
  have hblocks := hfs.hasBlocks
  have hpos := hblocks.blockSize_pos
  constructor
  · intro h
    have hcount := h.count hblocks
    refine ⟨(fs.bytesRead_eq_iff hoffset hsize).mp hcount, fun x hle hx h0 => ?_, fun k hk => ?_⟩
    · -- the disk has ones only where the driver does not come to
      by_contra hreach
      have hfar := hfs.le_of_not_reaches hreach
      have hmod : x % fs.blockSize % 512 < 512 := Nat.mod_lt _ (by decide)
      have hnear : ∀ b i, ¬ 2 ^ 28 ≤ fs.sectorNumber b i := fun b i =>
        Nat.not_le.mpr (Nat.mod_lt _ (by decide))
      have hbyte := h.byte hblocks (fun lba => if 2 ^ 28 ≤ lba then ones else zeros) (fun _ => 0)
        (x := x - offset) (by omega)
      rw [Nat.add_sub_cancel' hle, fileBytes_of_block _ h0, addressedFile_of_block _ h0,
        if_pos (show 2 ^ 28 ≤ iBlock inode (x / fs.blockSize) * fs.sectorsPerBlock
          + x % fs.blockSize / 512 by omega), if_neg (hnear _ _), bytes_ones hmod, bytes_zeros,
        ite_self] at hbyte
      exact absurd hbyte (by decide)
    · -- the buffer has zeros where nothing is copied to
      have hle := fs.bytesRead_le inode offset size
      have hoff := hk.2.2.1
      have hend := hk.2.2.2
      have hx : k * fs.blockSize < offset + fs.toRead inode offset size := by
        rw [Nat.add_mul] at hend
        omega
      have hdiv : k * fs.blockSize / fs.blockSize = k := Nat.mul_div_cancel k hpos
      have hskip : fs.Skips inode offset (sizeToEnd inode offset size) k :=
        ⟨hk.1, hk.2.1, hoff, by omega⟩
      have hbyte := h.byte hblocks (fun _ => ones) (fun _ => 0) (x := k * fs.blockSize - offset)
        (by omega)
      rw [Nat.add_sub_cancel' hoff, hdiv, if_pos hskip,
        fileBytes_of_block _ (by rw [hdiv]; exact hk.2.1),
        bytes_ones (Nat.mod_lt _ (by decide))] at hbyte
      exact absurd hbyte (by decide)
  · rintro ⟨hbounded, hreach, hcopied⟩ e s buffer he
    have hcount := (fs.bytesRead_eq_iff hoffset hsize).mpr hbounded
    obtain ⟨b, hrun, hupto⟩ := run_ext2ReadFile (s := s) he hblocks inode offset size buffer
    rw [hcount] at hrun hupto
    refine ⟨b, hrun, fun x hx => ?_, hupto.kept⟩
    have hx' : x < min size (min (iSize inode - offset) (12 * fs.blockSize - offset)) := hx
    have hk : (offset + x) / fs.blockSize < 12 :=
      Nat.div_lt_of_lt_mul (by rw [Nat.mul_comm]; omega)
    have hskip : ¬ fs.Skips inode offset (sizeToEnd inode offset size)
        ((offset + x) / fs.blockSize) := by
      intro hskips
      have hread := (Ext2Fs.skips_bytesRead hk (by omega) (by omega)).mpr hskips
      rw [hcount] at hread
      exact hcopied _ hread
    rw [hupto.read x hx, if_neg hskip]
    exact Ext2Fs.addressedFile_eq hblocks _ (hreach (offset + x) (Nat.le_add_right _ _) (by omega))

end reads

/-! ## Two files -/

/-- A volume with blocks of `n` bytes, whose inodes are in block 5. -/
def volumeOf (n : Nat) : Ext2Fs where
  superblock := ⟨64, 1, 0, 8192, 8, 0xEF53, 128⟩
  groupDescTable := store32 (fun _ => 0) 8 5
  blockSize := n
  numBlockGroups := 1
  drive := ⟨0x1F0, true⟩

/-- An inode of a file of `n` bytes, whose first two blocks are blocks 9 and 10. -/
def inodeOf (n : Nat) : Bytes := store32 (store32 (store32 (fun _ => 0) 40 9) 44 10) 4 n

/-- 1000 bytes, from the middle of the first block of a file to the middle of the second. -/
theorem readsFile_iff_two : (volumeOf 1024).ReadsFile (inodeOf 2048) 600 1000 := by
  refine (readsFile_iff ⟨0, by decide, rfl⟩ _ (by decide) (by decide)).mpr
    ⟨Or.inr (Or.inl (by decide)), fun x hle hx _ => ?_, fun k h => absurd h.1 (by decide)⟩
  have hread : (volumeOf 1024).toRead (inodeOf 2048) 600 1000 = 1000 := by decide
  have hsize : (volumeOf 1024).blockSize = 1024 := rfl
  unfold Ext2Fs.Reaches
  rw [hsize]
  rcases (show x / 1024 = 0 ∨ x / 1024 = 1 by omega) with h | h
  · rw [h]
    decide
  · rw [h]
    decide

/-- A file of three bytes, read from offset 1 with a size that wraps, gives 12287 bytes. -/
theorem not_readsFile : ¬ ∀ (fs : Ext2Fs) (inode : Bytes) (offset size : Nat),
    AcceptedSize fs.blockSize → offset < 2 ^ 32 → size < 2 ^ 32 → fs.ReadsFile inode offset size := by
  intro hall
  have hfs : AcceptedSize (volumeOf 1024).blockSize := ⟨0, by decide, rfl⟩
  have hread := hall (volumeOf 1024) (inodeOf 3) 1 (2 ^ 32 - 1) hfs (by decide) (by decide)
  have hcount := hread.count hfs.hasBlocks
  exact absurd hcount (by decide)

end MicroKernel.Ext2
