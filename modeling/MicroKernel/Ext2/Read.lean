import MicroKernel.Ext2.Driver
import MicroKernel.Fat32.Footprint
import MicroKernel.Vfs.ReadContract

set_option autoImplicit false

/-! # Reading a file of an ext2 volume

What `ext2_read_file` leaves in the buffer, whatever the inode is: `run_ext2ReadFile`. Blocks that are
not there are read as zeros, and of a block of 64 KB that is asked for as a whole nothing is copied,
since `memcpy` takes no count of that size. Where no such block is asked for, a file within the direct
blocks of its inode is read as the contract of a read says, from any offset on:
`ext2VfsRead_answers`.
-/

namespace MicroKernel.Ext2

open MicroKernel.Lib Bytes
open MicroKernel.Fat32 (Drive Env Fs Sector Io ataReadSector within uninitialised run_within
  run_uninitialised)

/-- The contents of a disk. -/
abbrev Disk := Nat → Sector

/-- The size that `ext2_read_file` goes on with. -/
def sizeToEnd (inode : Bytes) (offset size : Nat) : Nat :=
  if iSize inode < u32 (offset + size) then iSize inode - offset else size

namespace Ext2Fs

variable (fs : Ext2Fs)

/-- The sectors of a block. -/
def sectorsPerBlock : Nat := fs.blockSize / 512

/-- Block `b` of the disk. -/
def blockBytes (d : Disk) (b : Nat) : Bytes :=
  joined 512 fun i => Sector.bytes (d (b * fs.sectorsPerBlock + i))

/-- The sector that the driver takes for sector `i` of block `b`. -/
def sectorNumber (b i : Nat) : Nat := u32 (u32 (b * fs.sectorsPerBlock) + i) % 2 ^ 28

/-- What the driver reads for block `b`. -/
def addressedBytes (d : Disk) (b : Nat) : Bytes :=
  joined 512 fun i => Sector.bytes (d (fs.sectorNumber b i))

/-- Block `b` is where a 28-bit sector number can reach. -/
def Reaches (b : Nat) : Prop := (b + 1) * fs.sectorsPerBlock ≤ 2 ^ 28

/-- The block with inode `n`. -/
def inodeBlock (n : Nat) : Nat :=
  fs.inodeTable (fs.ext2GetInodeBlockGroup n)
    + fs.ext2GetInodeTableIndex n * fs.inodeSize / fs.blockSize

/-- Where the inode starts in that block. -/
def inodeOffset (n : Nat) : Nat := fs.ext2GetInodeTableIndex n * fs.inodeSize % fs.blockSize

/-- The block that the driver takes inode `n` to be in. -/
def addressedInodeBlock (n : Nat) : Nat :=
  u32 (fs.inodeTable (fs.ext2GetInodeBlockGroup n)
    + u32 (fs.ext2GetInodeTableIndex n * fs.inodeSize) / fs.blockSize)

/-- Where the driver takes it to start. -/
def addressedInodeOffset (n : Nat) : Nat :=
  u32 (fs.ext2GetInodeTableIndex n * fs.inodeSize) % fs.blockSize

/-- What the driver gives for inode `n`, where the block buffer is followed by the bytes of `junk`. -/
def inodeIn (d : Disk) (junk : Bytes) (n : Nat) : Bytes := fun x =>
  copy junk 0 (fs.addressedBytes d (fs.addressedInodeBlock n)) 0 fs.blockSize
    (fs.addressedInodeOffset n + x)

/-- Inode `n` of the disk. -/
def inodeBytes (d : Disk) (n : Nat) : Bytes := fun x =>
  fs.blockBytes d (fs.inodeBlock n) (fs.inodeOffset n + x)

/-- The bytes behind one another that the direct blocks of an inode have. -/
def fileBytes (d : Disk) (inode : Bytes) : Bytes :=
  joined fs.blockSize fun k => if iBlock inode k = 0 then fun _ => 0
    else fs.blockBytes d (iBlock inode k)

/-- What the driver reads for the direct blocks of an inode. -/
def addressedFile (d : Disk) (inode : Bytes) : Bytes :=
  joined fs.blockSize fun k => if iBlock inode k = 0 then fun _ => 0
    else fs.addressedBytes d (iBlock inode k)

/-- What a volume needs to be read: blocks of whole sectors, not larger than `ext2_init` allows. -/
structure HasBlocks : Prop where
  sectors : fs.sectorsPerBlock * 512 = fs.blockSize
  pos : 0 < fs.sectorsPerBlock
  le : fs.blockSize ≤ 65536

/-- The same, and inodes in its groups. -/
structure WellFormed : Prop extends fs.HasBlocks where
  inodesPerGroup_pos : 0 < fs.superblock.inodesPerGroup

/-- Inode `n` is in the table of its group, whole in one block. -/
structure HasInode (n : Nat) : Prop where
  pos : 0 < n
  group : fs.ext2GetInodeBlockGroup n < fs.numBlockGroups
  small : fs.ext2GetInodeTableIndex n * fs.inodeSize < 2 ^ 32
  inside : fs.inodeOffset n + 128 ≤ fs.blockSize
  reach : fs.Reaches (fs.inodeBlock n)

/-- The file of an inode: within the direct blocks, and those that are there can be reached. -/
structure HasFile (inode : Bytes) : Prop where
  direct : iSize inode ≤ 12 * fs.blockSize
  reach : ∀ k, k < 12 → k * fs.blockSize < iSize inode → iBlock inode k ≠ 0 →
    fs.Reaches (iBlock inode k)

/-- Block `k` of the file has 64 KB, and `size` bytes from `offset` on have all of them: a count that
`memcpy` takes for zero. -/
def Skips (inode : Bytes) (offset size k : Nat) : Prop :=
  fs.blockSize = 65536 ∧ iBlock inode k ≠ 0 ∧ offset ≤ k * fs.blockSize ∧
    (k + 1) * fs.blockSize ≤ offset + size

instance (inode : Bytes) (offset size k : Nat) : Decidable (fs.Skips inode offset size k) :=
  inferInstanceAs (Decidable (_ ∧ _))

/-- The reads that are right, of a file within the direct blocks. -/
def ReadsRight (inode : Bytes) (offset size : Nat) : Prop :=
  ∀ k, ¬ fs.Skips inode offset (min size (iSize inode - offset)) k

/-- The number of bytes that `ext2_read_file` returns. -/
def bytesRead (inode : Bytes) (offset size : Nat) : Nat :=
  if iSize inode ≤ offset then 0
  else min (sizeToEnd inode offset size) (12 * fs.blockSize - offset)

/-- The first `t` bytes of the buffer have been read from `offset` on, but for those that are skipped,
and the others are as they were. -/
structure ReadUpTo (d : Disk) (inode : Bytes) (offset size : Nat) (buffer : Bytes) (t : Nat)
    (buffer' : Bytes) : Prop where
  read : ∀ x, x < t → buffer' x
    = if fs.Skips inode offset size ((offset + x) / fs.blockSize) then buffer x
      else fs.addressedFile d inode (offset + x)
  kept : ∀ x, t ≤ x → buffer' x = buffer x

end Ext2Fs

/-! ## Blocks -/

section blocks

variable {fs : Ext2Fs} {e : Env} {s : Fs}

theorem Ext2Fs.HasBlocks.blockSize_pos (hfs : fs.HasBlocks) : 0 < fs.blockSize := by
  have := hfs.sectors
  have := hfs.pos
  omega

theorem Ext2Fs.Reaches.lt {b : Nat} (hb : fs.Reaches b) (hpos : 0 < fs.sectorsPerBlock) :
    b < 2 ^ 32 := by
  have hle : (b + 1) * 1 ≤ (b + 1) * fs.sectorsPerBlock := Nat.mul_le_mul_left _ hpos
  unfold Reaches at hb
  omega

/-- A sector in reach is the one that is meant. -/
theorem Ext2Fs.sectorNumber_eq {b i : Nat} (hb : fs.Reaches b) (hi : i < fs.sectorsPerBlock) :
    fs.sectorNumber b i = b * fs.sectorsPerBlock + i := by
  unfold Reaches at hb
  rw [Nat.add_mul, Nat.one_mul] at hb
  unfold sectorNumber
  rw [u32_eq_self (n := b * fs.sectorsPerBlock) (by omega), u32_eq_self (by omega),
    Nat.mod_eq_of_lt (by omega)]

/-- A block in reach is read as it is. -/
theorem Ext2Fs.addressedBytes_eq (hfs : fs.HasBlocks) {b : Nat} (hb : fs.Reaches b) (d : Disk)
    {x : Nat} (hx : x < fs.blockSize) : fs.addressedBytes d b x = fs.blockBytes d b x := by
  have hi : x / 512 < fs.sectorsPerBlock :=
    Nat.div_lt_of_lt_mul (by rw [Nat.mul_comm, hfs.sectors]; exact hx)
  unfold addressedBytes blockBytes joined
  dsimp only
  rw [Ext2Fs.sectorNumber_eq hb hi]

theorem run_ataReadSector (e : Env) (s : Fs) (l : Fat32.Label) (drive : Drive) (lba : Nat)
    (buffer : Bytes) (a : Nat) :
    (ataReadSector l drive lba buffer a).run e s
      = some (if e.fails l then (false, buffer)
          else (true, copy buffer a (Sector.bytes (s.disks drive (lba % 2 ^ 28))) 0 512), s) := by
  unfold ataReadSector
  rw [Prog.run_bind, Prog.run_ask, Option.bind_some, Prog.run_ite]
  split
  · rfl
  · rw [Prog.run_bind, Prog.run_get, Option.bind_some]
    rfl

/-- The loop of `ext2_read_block`, of which the sectors in front of `i` are read. -/
theorem run_readBlockSectors (fs : Ext2Fs) (e : Env) (s : Fs) (b : Nat) (buffer : Bytes) (n i : Nat) :
    ∃ ok buffer', (readBlockSectors fs.drive (u32 (b * fs.sectorsPerBlock)) n i
        (copy buffer 0 (fs.addressedBytes (s.disks fs.drive) b) 0 (512 * i)) 0).run e s
        = some ((ok, buffer'), s) ∧
      (ok = true → buffer'
        = copy buffer 0 (fs.addressedBytes (s.disks fs.drive) b) 0 (512 * (i + n))) ∧
      (e.Reliable → ok = true) ∧ (e.Failing → 0 < n → ok = false) := by
  induction n generalizing i with
  | zero => exact ⟨true, _, rfl, fun _ => rfl, fun _ => rfl, nofun⟩
  | succ n ih =>
      rw [readBlockSectors, Prog.run_bind, run_ataReadSector, Option.bind_some]
      by_cases hfail : e.fails (.load i) = true
      · rw [if_pos hfail]
        exact ⟨false, _, rfl, nofun, fun he => absurd hfail (by rw [he.fails]; decide),
          fun _ _ => rfl⟩
      · obtain ⟨ok, buffer', hrun, hbuffer, hok, -⟩ := ih (i + 1)
        refine ⟨ok, buffer', ?_, ?_, hok, fun he => absurd (he _) hfail⟩
        · rw [if_neg hfail, Nat.zero_add, Nat.mul_comm i 512]
          dsimp only
          rw [Prog.run_ite, if_neg (by simp)]
          refine Eq.trans (congrArg (fun c => (readBlockSectors fs.drive _ n (i + 1) c 0).run e s) ?_)
            hrun
          refine copy_copy (n := 512) _ 0 fun k hk => ?_
          unfold Ext2Fs.addressedBytes
          rw [Nat.zero_add, Nat.zero_add, Nat.mul_comm 512 i, joined_apply _ hk]
          rfl
        · rw [show i + (n + 1) = i + 1 + n by omega]
          exact hbuffer

/-- **`ext2_read_block`**, whether or not a read fails. -/
theorem run_ext2ReadBlock_any (hfs : fs.HasBlocks) (e : Env) (s : Fs) (b : Nat) (buffer : Bytes) :
    ∃ ok buffer', (ext2ReadBlock fs b buffer 0).run e s = some ((ok, buffer'), s) ∧
      (ok = true → buffer'
        = copy buffer 0 (fs.addressedBytes (s.disks fs.drive) b) 0 fs.blockSize) ∧
      (e.Reliable → ok = true) ∧ (e.Failing → ok = false) := by
  obtain ⟨ok, buffer', hrun, hbuffer, hok, hfail⟩ :=
    run_readBlockSectors fs e s b buffer fs.sectorsPerBlock 0
  have hnone : copy buffer 0 (fs.addressedBytes (s.disks fs.drive) b) 0 (512 * 0) = buffer :=
    funext fun x => copy_outside _ _ _ (by omega)
  rw [hnone] at hrun
  rw [Nat.zero_add, Nat.mul_comm, hfs.sectors] at hbuffer
  exact ⟨ok, buffer', hrun, hbuffer, hok, fun he => hfail he hfs.pos⟩

/-- The same, where no read fails. -/
theorem run_ext2ReadBlock (he : e.Reliable) (hfs : fs.HasBlocks) (b : Nat) (buffer : Bytes) :
    ∃ buffer', (ext2ReadBlock fs b buffer 0).run e s = some ((true, buffer'), s) ∧
      Filled buffer' (fs.addressedBytes (s.disks fs.drive) b) 0 fs.blockSize := by
  obtain ⟨ok, buffer', hrun, hbuffer, hok, -⟩ := run_ext2ReadBlock_any hfs e s b buffer
  rw [hok he] at hrun
  rw [hbuffer (hok he)] at hrun
  exact ⟨_, hrun, filled_copy _ _ _ _⟩

/-- Without inodes in the groups there is a division by zero. -/
theorem run_ext2ReadInode_diverges {n : Nat} (hn : n ≠ 0) (hper : fs.superblock.inodesPerGroup = 0) :
    (ext2ReadInode fs n).run e s = none := by
  unfold ext2ReadInode
  rw [Prog.run_ite, if_neg hn, Prog.run_ite, if_pos hper]
  rfl

/-- **`ext2_read_inode`**, whether or not a read fails. -/
theorem run_ext2ReadInode_any (hfs : fs.HasBlocks) {n : Nat}
    (hper : n = 0 ∨ 0 < fs.superblock.inodesPerGroup) (e : Env) (s : Fs) :
    ∃ r, (ext2ReadInode fs n).run e s = some (r, s) ∧
      (∀ inode, r = some inode → (0 < n ∧ fs.ext2GetInodeBlockGroup n < fs.numBlockGroups) ∧
        inode = fs.inodeIn (s.disks fs.drive) (e.junk (.load 0 :: e.path)) n) ∧
      (e.Reliable → 0 < n → fs.ext2GetInodeBlockGroup n < fs.numBlockGroups → r ≠ none) ∧
      (e.Failing → r = none) := by
  unfold ext2ReadInode
  rw [Prog.run_ite]
  by_cases hn : n = 0
  · rw [if_pos hn]
    exact ⟨none, rfl, nofun, fun _ hpos => by omega, fun _ => rfl⟩
  · rw [if_neg hn, Prog.run_ite, if_neg (by omega)]
    dsimp only
    rw [Prog.run_ite]
    by_cases hgroup : fs.numBlockGroups ≤ fs.ext2GetInodeBlockGroup n
    · rw [if_pos hgroup]
      exact ⟨none, rfl, nofun, fun _ _ hlt => by omega, fun _ => rfl⟩
    · obtain ⟨ok, buffer', hrun, hbuffer, hok, hfail⟩ := run_ext2ReadBlock_any hfs e s
        (fs.addressedInodeBlock n) (e.junk (.load 0 :: e.path))
      rw [if_neg hgroup, Prog.run_bind, run_uninitialised, Option.bind_some]
      change ∃ r, Prog.run (Bind.bind (ext2ReadBlock fs (fs.addressedInodeBlock n) _ 0) _) e s = _ ∧ _
      rw [Prog.run_bind, hrun, Option.bind_some]
      dsimp only
      cases ok with
      | false => exact ⟨none, rfl, nofun, fun he => absurd (hok he) (by decide), fun _ => rfl⟩
      | true =>
          refine ⟨_, rfl, fun inode hinode => ⟨⟨by omega, by omega⟩, ?_⟩, fun _ _ _ => nofun,
            fun he => absurd (hfail he) (by decide)⟩
          rw [← Option.some.inj hinode, hbuffer rfl]
          rfl

/-- The 128 bytes that the driver takes for the inode. -/
theorem run_ext2ReadInode_addressed (he : e.Reliable) (hfs : fs.WellFormed) {n : Nat} (hn : 0 < n)
    (hgroup : fs.ext2GetInodeBlockGroup n < fs.numBlockGroups)
    (hin : fs.addressedInodeOffset n + 128 ≤ fs.blockSize) :
    ∃ inode, (ext2ReadInode fs n).run e s = some (some inode, s) ∧
      Filled inode (fun x => fs.addressedBytes (s.disks fs.drive) (fs.addressedInodeBlock n)
        (fs.addressedInodeOffset n + x)) 0 128 := by
  obtain ⟨r, hrun, hinode, hsome, -⟩ :=
    run_ext2ReadInode_any hfs.toHasBlocks (Or.inr hfs.inodesPerGroup_pos) e s
  obtain ⟨inode, rfl⟩ := Option.ne_none_iff_exists'.mp (hsome he hn hgroup)
  refine ⟨inode, hrun, fun x hx => ?_⟩
  rw [(hinode inode rfl).2]
  unfold Ext2Fs.inodeIn
  rw [copy_inside _ _ _ (Nat.zero_le _) (by omega), Nat.zero_add, Nat.sub_zero, Nat.zero_add]

/-- An inode in reach is where the driver takes it to be. -/
theorem Ext2Fs.HasInode.addressed (hfs : fs.HasBlocks) {n : Nat} (hn : fs.HasInode n) :
    fs.addressedInodeBlock n = fs.inodeBlock n ∧ fs.addressedInodeOffset n = fs.inodeOffset n := by
  have hlt : fs.inodeBlock n < 2 ^ 32 := hn.reach.lt hfs.pos
  unfold addressedInodeBlock addressedInodeOffset
  rw [u32_eq_self hn.small]
  exact ⟨u32_eq_self hlt, rfl⟩

/-- **`ext2_read_inode`**: the 128 bytes of the inode. -/
theorem run_ext2ReadInode (he : e.Reliable) (hfs : fs.WellFormed) {n : Nat} (hn : fs.HasInode n) :
    ∃ inode, (ext2ReadInode fs n).run e s = some (some inode, s) ∧
      Filled inode (fs.inodeBytes (s.disks fs.drive) n) 0 128 := by
  obtain ⟨hblock, hoffset⟩ := hn.addressed hfs.toHasBlocks
  have hin := hn.inside
  obtain ⟨inode, hrun, hfill⟩ := run_ext2ReadInode_addressed (s := s) he hfs hn.pos hn.group
    (by rw [hoffset]; exact hin)
  refine ⟨inode, hrun, fun x hx => (hfill x hx).trans ?_⟩
  dsimp only
  rw [hblock, hoffset, Ext2Fs.addressedBytes_eq hfs.toHasBlocks hn.reach _ (by omega)]
  rfl

end blocks

/-! ## The loop -/

/-- A place in the same block. -/
theorem div_add_of_mod {m x i : Nat} (hi : x % m + i < m) : (x + i) / m = x / m := by
  have hx : x + i = m * (x / m) + (x % m + i) := by
    have := Nat.div_add_mod x m
    omega
  rw [hx, Nat.mul_add_div (by omega), Nat.div_eq_of_lt hi, Nat.add_zero]

section loop

variable {fs : Ext2Fs} {e : Env} {s : Fs} {inode : Bytes} {offset size t : Nat} {buffer b : Bytes}

/-- A byte of the file in the block that `x` is in. -/
theorem addressedFile_add (d : Disk) {x i : Nat} (hi : x % fs.blockSize + i < fs.blockSize) :
    fs.addressedFile d inode (x + i) = if iBlock inode (x / fs.blockSize) = 0 then 0
      else fs.addressedBytes d (iBlock inode (x / fs.blockSize)) (x % fs.blockSize + i) := by
  have hx : x + i = x / fs.blockSize * fs.blockSize + (x % fs.blockSize + i) := by
    rw [Nat.mul_comm]
    have := Nat.div_add_mod x fs.blockSize
    omega
  unfold Ext2Fs.addressedFile
  rw [hx, joined_apply _ hi]
  split <;> rfl

/-- A byte of a block in reach is read as it is. -/
theorem Ext2Fs.addressedFile_eq (hfs : fs.HasBlocks) (d : Disk) {x : Nat}
    (h : iBlock inode (x / fs.blockSize) ≠ 0 → fs.Reaches (iBlock inode (x / fs.blockSize))) :
    fs.addressedFile d inode x = fs.fileBytes d inode x := by
  unfold addressedFile fileBytes joined
  dsimp only
  by_cases h0 : iBlock inode (x / fs.blockSize) = 0
  · rw [if_pos h0, if_pos h0]
  · rw [if_neg h0, if_neg h0, Ext2Fs.addressedBytes_eq hfs (h h0) _
      (Nat.mod_lt _ hfs.blockSize_pos)]

theorem Ext2Fs.readUpTo_zero (fs : Ext2Fs) (d : Disk) (inode : Bytes) (offset size : Nat)
    (buffer : Bytes) : fs.ReadUpTo d inode offset size buffer 0 buffer :=
  ⟨fun x hx => absurd hx (Nat.not_lt_zero x), fun _ _ => rfl⟩

/-- The next bytes are read, and nothing else is written. -/
theorem Ext2Fs.ReadUpTo.extend {d : Disk} (h : fs.ReadUpTo d inode offset size buffer t b) {now : Nat}
    {b' : Bytes} (hnew : ∀ i, i < now → b' (t + i)
      = if fs.Skips inode offset size ((offset + (t + i)) / fs.blockSize) then buffer (t + i)
        else fs.addressedFile d inode (offset + (t + i)))
    (hout : ∀ x, x < t ∨ t + now ≤ x → b' x = b x) :
    fs.ReadUpTo d inode offset size buffer (t + now) b' := by
  refine ⟨fun x hx => ?_, fun x hx => ?_⟩
  · rcases Nat.lt_or_ge x t with hlt | hge
    · rw [hout x (Or.inl hlt)]
      exact h.read x hlt
    · obtain ⟨i, rfl⟩ := Nat.exists_eq_add_of_le hge
      exact hnew i (by omega)
  · rw [hout x (Or.inr hx)]
    exact h.kept x (by omega)

/-- Behind another block, or at the offset itself, a block is skipped when all of it is asked for. -/
theorem Ext2Fs.skips_iff (hfs : fs.HasBlocks) (hstart : t = 0 ∨ (offset + t) % fs.blockSize = 0)
    (hmore : t < size) (hblock : iBlock inode ((offset + t) / fs.blockSize) ≠ 0) :
    fs.Skips inode offset size ((offset + t) / fs.blockSize) ↔
      65536 ≤ min (size - t) (fs.blockSize - (offset + t) % fs.blockSize) := by
  have hle := hfs.le
  have hdiv := Nat.div_add_mod (offset + t) fs.blockSize
  unfold Skips
  rw [Nat.add_mul, Nat.one_mul, Nat.mul_comm (_ / _)]
  constructor
  · rintro ⟨hsize, -, hbegin, hend⟩
    have hmod : (offset + t) % fs.blockSize = 0 := by
      rcases hstart with rfl | h
      · rw [Nat.add_zero] at *
        omega
      · exact h
    omega
  · intro h
    exact ⟨by omega, hblock, by omega, by omega⟩

/-- The `now` bytes that one turn reads, to the end of what is asked for or of the block. -/
structure IsPiece (blockSize offset size t now : Nat) : Prop where
  pos : 0 < now
  le : t + now ≤ size
  inBlock : (offset + t) % blockSize + now ≤ blockSize
  align : t + now = size ∨ (offset + (t + now)) % blockSize = 0

theorem isPiece_min {blockSize : Nat} (hpos : 0 < blockSize) (hmore : t < size) :
    IsPiece blockSize offset size t (min (size - t) (blockSize - (offset + t) % blockSize)) := by
  have hmod := Nat.mod_lt (offset + t) hpos
  have hdiv := Nat.div_add_mod (offset + t) blockSize
  refine ⟨by omega, by omega, by omega, ?_⟩
  rcases Nat.le_total (size - t) (blockSize - (offset + t) % blockSize) with hle | hge
  · rw [Nat.min_eq_left hle]
    exact Or.inl (by omega)
  · rw [Nat.min_eq_right hge]
    -- the piece ends where the next block begins
    have hend : offset + (t + (blockSize - (offset + t) % blockSize))
        = blockSize * ((offset + t) / blockSize + 1) := by
      rw [Nat.mul_succ]
      omega
    exact Or.inr (by rw [hend, Nat.mul_mod_right])

section piece

variable {blockSize now : Nat} (h : IsPiece blockSize offset size t now)
include h

theorem IsPiece.div_eq {j : Nat} (hj : j < now) :
    (offset + (t + j)) / blockSize = (offset + t) / blockSize := by
  have hin := h.inBlock
  rw [← Nat.add_assoc]
  exact div_add_of_mod (by omega)

/-- It does not go beyond the blocks that it begins in. -/
theorem IsPiece.le_mul {n : Nat} (hlt : offset + t < n * blockSize) :
    offset + (t + now) ≤ n * blockSize := by
  have hin := h.inBlock
  have hdiv := Nat.div_add_mod (offset + t) blockSize
  have hindex : (offset + t) / blockSize < n :=
    Nat.div_lt_of_lt_mul (by rwa [Nat.mul_comm])
  have hroom : blockSize * ((offset + t) / blockSize) + blockSize ≤ n * blockSize := by
    rw [← Nat.mul_succ, Nat.mul_comm]
    exact Nat.mul_le_mul_right _ hindex
  omega

end piece

/-- A piece of a block that is not there. -/
theorem Ext2Fs.ReadUpTo.fill {d : Disk} {now : Nat}
    (hb : fs.ReadUpTo d inode offset size buffer t b)
    (hpiece : IsPiece fs.blockSize offset size t now)
    (h0 : iBlock inode ((offset + t) / fs.blockSize) = 0) :
    fs.ReadUpTo d inode offset size buffer (t + now) (Bytes.fill b t now 0) := by
  have hin := hpiece.inBlock
  refine hb.extend (fun j hj => ?_) fun x hx => fill_outside _ _ hx
  rw [fill_inside _ _ (by omega) (by omega), hpiece.div_eq hj, if_neg (fun h => h.2.1 h0),
    ← Nat.add_assoc, addressedFile_add _ (by omega), if_pos h0]

/-- A piece of a block that is there; a count of 65536 is none. -/
theorem Ext2Fs.ReadUpTo.memcpy (hfs : fs.HasBlocks) {d : Disk} {now : Nat} {blockBuffer : Bytes}
    (hb : fs.ReadUpTo d inode offset size buffer t b)
    (hstart : t = 0 ∨ (offset + t) % fs.blockSize = 0) (hmore : t < size)
    (hnow : now = min (size - t) (fs.blockSize - (offset + t) % fs.blockSize))
    (h0 : iBlock inode ((offset + t) / fs.blockSize) ≠ 0)
    (hblock : Filled blockBuffer
      (fs.addressedBytes d (iBlock inode ((offset + t) / fs.blockSize))) 0 fs.blockSize) :
    fs.ReadUpTo d inode offset size buffer (t + now)
      (Libc.memcpy b t blockBuffer ((offset + t) % fs.blockSize) now) := by
  have hle := hfs.le
  have hpiece : IsPiece fs.blockSize offset size t now := hnow ▸ isPiece_min hfs.blockSize_pos hmore
  have hin := hpiece.inBlock
  have hskips := Ext2Fs.skips_iff hfs hstart hmore h0
  refine hb.extend (fun j hj => ?_) fun x hx => ?_
  · rw [hpiece.div_eq hj]
    by_cases hsmall : now < 65536
    · rw [if_neg (fun h => by have := hskips.mp h; omega), Libc.memcpy_eq _ _ _ _ hsmall,
        copy_inside _ _ _ (by omega) (by omega), Nat.add_sub_cancel_left, hblock _ (by omega),
        Nat.zero_add, ← Nat.add_assoc, addressedFile_add _ (by omega), if_neg h0]
    · have hcount : now % 2 ^ 16 = 0 := by
        obtain rfl : now = 65536 := by omega
        rfl
      rw [if_pos (hskips.mpr (by omega))]
      unfold Libc.memcpy
      rw [hcount, copy_outside _ _ _ (by omega)]
      exact hb.kept _ (by omega)
  · have hcount := Nat.mod_le now (2 ^ 16)
    unfold Libc.memcpy
    exact copy_outside _ _ _ (by omega)

/-- One turn of the loop. -/
theorem run_readFileLoop_step (he : e.Reliable) (hfs : fs.HasBlocks)
    (hstart : t = 0 ∨ (offset + t) % fs.blockSize = 0) (hmore : t < size)
    (hdirect : offset + t < 12 * fs.blockSize)
    (hb : fs.ReadUpTo (s.disks fs.drive) inode offset size buffer t b) (k i : Nat) :
    ∃ now b', 0 < now ∧ t + now ≤ size ∧ offset + (t + now) ≤ 12 * fs.blockSize ∧
      (t + now = size ∨ (offset + (t + now)) % fs.blockSize = 0) ∧
      fs.ReadUpTo (s.disks fs.drive) inode offset size buffer (t + now) b' ∧
      (readFileLoop fs inode size (k + 1) i t (offset + t) b).run e s
        = (readFileLoop fs inode size k (i + 1) (t + now) (offset + (t + now)) b').run e s := by
  have hle := hfs.le
  have hindex : (offset + t) / fs.blockSize < 12 :=
    Nat.div_lt_of_lt_mul (by rw [Nat.mul_comm]; exact hdirect)
  obtain ⟨now, hnow⟩ : ∃ now, now
      = if size - t < fs.blockSize - (offset + t) % fs.blockSize then size - t
        else fs.blockSize - (offset + t) % fs.blockSize := ⟨_, rfl⟩
  have hmin : now = min (size - t) (fs.blockSize - (offset + t) % fs.blockSize) := by
    rw [hnow]
    split <;> omega
  have hpiece : IsPiece fs.blockSize offset size t now :=
    hmin ▸ isPiece_min hfs.blockSize_pos hmore
  have hstop := hpiece.le_mul hdirect
  have hnext : u32 (offset + t + now) = offset + (t + now) := by
    rw [u32_eq_self (by omega), Nat.add_assoc]
  rw [readFileLoop, Prog.run_ite, if_neg (by omega)]
  dsimp only
  rw [← hnow, Prog.run_ite, if_neg (by omega), Prog.run_ite, hnext]
  by_cases h0 : iBlock inode ((offset + t) / fs.blockSize) = 0
  · rw [if_pos h0]
    exact ⟨now, _, hpiece.pos, hpiece.le, hstop, hpiece.align, hb.fill hpiece h0, rfl⟩
  · obtain ⟨blockBuffer, hrun, hblock⟩ := run_ext2ReadBlock (e := e.enter (.cluster i)) (s := s) he
      hfs (iBlock inode ((offset + t) / fs.blockSize))
      ((e.enter (.cluster i)).junk (.load 0 :: (e.enter (.cluster i)).path))
    rw [if_neg h0, Prog.run_bind, run_within, run_uninitialised, Option.bind_some, Prog.run_bind,
      run_within, hrun]
    exact ⟨now, _, hpiece.pos, hpiece.le, hstop, hpiece.align,
      hb.memcpy hfs hstart hmore hmin h0 hblock, rfl⟩

/-- The loop ends at the end of what is asked for, or at the last direct block. -/
theorem run_readFileLoop (he : e.Reliable) (hfs : fs.HasBlocks)
    (hstart : t = 0 ∨ t = size ∨ (offset + t) % fs.blockSize = 0)
    (ht : t ≤ min size (12 * fs.blockSize - offset))
    (hb : fs.ReadUpTo (s.disks fs.drive) inode offset size buffer t b) (k i : Nat)
    (hk : min size (12 * fs.blockSize - offset) - t < k) :
    ∃ b', (readFileLoop fs inode size k i t (offset + t) b).run e s
        = some ((min size (12 * fs.blockSize - offset), b'), s) ∧
      fs.ReadUpTo (s.disks fs.drive) inode offset size buffer
        (min size (12 * fs.blockSize - offset)) b' := by
  have hpos := hfs.blockSize_pos
  -- the induction is on the bound for the turns, each of which reads at least one byte
  induction k generalizing i t b with
  | zero => omega
  | succ k ih =>
      rcases Nat.lt_or_ge t (min size (12 * fs.blockSize - offset)) with hmore | hdone
      · obtain ⟨now, b', hnow, hsize, hdirect, halign, hb', hrun⟩ :=
          run_readFileLoop_step he hfs (by omega) (by omega) (by omega) hb k i
        rw [hrun]
        exact ih (Or.inr halign) (by omega) hb' (i + 1) (by omega)
      · obtain rfl : t = min size (12 * fs.blockSize - offset) := by omega
        refine ⟨b, ?_, hb⟩
        rw [readFileLoop, Prog.run_ite]
        by_cases hend : size ≤ min size (12 * fs.blockSize - offset)
        · rw [if_pos hend]
          rfl
        · have hindex : 12 ≤ (offset + min size (12 * fs.blockSize - offset)) / fs.blockSize :=
            (Nat.le_div_iff_mul_le hpos).mpr (by omega)
          rw [if_neg hend]
          dsimp only
          rw [Prog.run_ite, if_pos hindex]
          rfl

/-- **`ext2_read_file`**: how much is returned, and what is in the buffer then. -/
theorem run_ext2ReadFile (he : e.Reliable) (hfs : fs.HasBlocks) (inode : Bytes) (offset size : Nat)
    (buffer : Bytes) :
    ∃ b', (ext2ReadFile fs inode offset size buffer).run e s
        = some ((fs.bytesRead inode offset size, b'), s) ∧
      fs.ReadUpTo (s.disks fs.drive) inode offset (sizeToEnd inode offset size) buffer
        (fs.bytesRead inode offset size) b' := by
  have hle := hfs.le
  unfold ext2ReadFile Ext2Fs.bytesRead
  rw [Prog.run_ite]
  split
  next hend => exact ⟨buffer, rfl, fs.readUpTo_zero _ _ _ _ _⟩
  next hin =>
    exact run_readFileLoop he hfs (Or.inl rfl) (Nat.zero_le _) (fs.readUpTo_zero _ _ _ _ _) steps 0
      (by unfold steps; omega)

end loop

/-! ## `ext2_vfs_read` -/

/-- The node belongs to a file of the volume `fs` on the disk `d`. -/
structure NodeOf (d : Disk) (node : Vfs.Node sig) (fs : Ext2Fs) : Prop where
  data : node.fs.fsData = some fs
  inode : fs.HasInode node.inode
  file : fs.HasFile (fs.inodeBytes d node.inode)

/-- The file of an inode. -/
def Ext2Fs.file (fs : Ext2Fs) (d : Disk) (n : Nat) : Vfs.File :=
  ⟨fs.fileBytes d (fs.inodeBytes d n), iSize (fs.inodeBytes d n)⟩

section vfs

variable {fs : Ext2Fs} {e : Env} {s : Fs} {node : Vfs.Node sig}

/-- The size and the blocks are in the 128 bytes of an inode that are read. -/
theorem iSize_congr {inode inode' : Bytes} (h : Filled inode inode' 0 128) :
    iSize inode = iSize inode' :=
  load32_congr fun i hi => by rw [h _ (by omega), Nat.zero_add]

theorem iBlock_congr {inode inode' : Bytes} (h : Filled inode inode' 0 128) {k : Nat} (hk : k < 12) :
    iBlock inode k = iBlock inode' k :=
  load32_congr fun i hi => by rw [h _ (by omega), Nat.zero_add]

/-- **`ext2_vfs_read`** answers a read rightly that asks for no block of 64 KB as a whole. -/
theorem ext2VfsRead_answers (he : e.Reliable) (hfs : fs.WellFormed)
    (hnode : NodeOf (s.disks fs.drive) node fs) {offset size : Nat} (hlen : offset + size < 2 ^ 31)
    (hright : fs.ReadsRight (fs.inodeBytes (s.disks fs.drive) node.inode) offset size)
    (buffer : Bytes) :
    ∃ r, (ext2VfsRead node offset size buffer).run e s = some (r, s) ∧
      (fs.file (s.disks fs.drive) node.inode).Answers offset size r := by
  obtain ⟨inode, hread, hinode⟩ := run_ext2ReadInode (e := e.enter .find) (s := s) he hfs hnode.inode
  have hsize := iSize_congr hinode
  have hdirect := hnode.file.direct
  have hpos := hfs.blockSize_pos
  have hf : fs.HasFile inode := by
    refine ⟨hsize ▸ hdirect, fun k hk => ?_⟩
    rw [hsize, iBlock_congr hinode hk]
    exact hnode.file.reach k hk
  obtain ⟨buffer', hrun, hupto⟩ :=
    run_ext2ReadFile (s := s) he hfs.toHasBlocks inode offset size buffer
  have hcut : fs.bytesRead inode offset size = min size (iSize inode - offset) := by
    unfold Ext2Fs.bytesRead sizeToEnd
    rw [u32_eq_self (by omega)]
    split
    · omega
    · split <;> omega
  have hend : iSize inode ≤ offset ∨
      sizeToEnd inode offset size = min size (iSize inode - offset) := by
    unfold sizeToEnd
    rw [u32_eq_self (by omega)]
    split <;> omega
  rw [hcut] at hrun hupto
  rw [hsize] at hrun
  refine ⟨(.ok (min size (iSize (fs.inodeBytes (s.disks fs.drive) node.inode) - offset)), buffer'),
    ?_, rfl, fun i hi => ?_⟩
  · unfold ext2VfsRead
    rw [hnode.data]
    dsimp only
    rw [Prog.run_bind, run_within, hread, Option.bind_some]
    dsimp only
    rw [Prog.run_bind, hrun, Option.bind_some]
    dsimp only
    rw [Prog.run_ite, if_neg (by omega)]
    rfl
  · -- both files have the same blocks
    change i < min size (iSize (fs.inodeBytes (s.disks fs.drive) node.inode) - offset) at hi
    rw [← hsize] at hi
    have hk : (offset + i) / fs.blockSize < 12 :=
      Nat.div_lt_of_lt_mul (by rw [Nat.mul_comm]; omega)
    have hskip : ¬ fs.Skips inode offset (sizeToEnd inode offset size)
        ((offset + i) / fs.blockSize) := by
      rw [hend.resolve_left (by omega)]
      intro h
      refine hright ((offset + i) / fs.blockSize) ⟨h.1, ?_, h.2.2.1, ?_⟩
      · rw [← iBlock_congr hinode hk]
        exact h.2.1
      · rw [← hsize]
        exact h.2.2.2
    calc buffer' i = fs.addressedFile (s.disks fs.drive) inode (offset + i) := by
          rw [hupto.read i hi, if_neg hskip]
      _ = fs.fileBytes (s.disks fs.drive) inode (offset + i) :=
          Ext2Fs.addressedFile_eq hfs.toHasBlocks _ fun h0 => hf.reach _ hk (by
            have := Nat.div_mul_le_self (offset + i) fs.blockSize
            omega) h0
      _ = fs.fileBytes (s.disks fs.drive) (fs.inodeBytes (s.disks fs.drive) node.inode)
            (offset + i) := by
          unfold Ext2Fs.fileBytes joined
          dsimp only
          rw [iBlock_congr hinode hk]

end vfs

/-! ## What a read changes -/

section frame

open Prog (Keeps ReadOnly)

theorem readBlockSectors_readOnly (drive : Drive) (startSector n i : Nat) (b : Bytes) (a : Nat) :
    ReadOnly (readBlockSectors drive startSector n i b a) := by
  induction n generalizing i b with
  | zero => exact Keeps.pure _
  | succ n ih =>
      rw [readBlockSectors]
      apply Keeps.bind (Fat32.ataReadSector_readOnly _ _ _ _ _)
      intro r
      exact Keeps.ite (Keeps.pure _) (ih _ _)

theorem ext2ReadInode_readOnly (fs : Ext2Fs) (n : Nat) : ReadOnly (ext2ReadInode fs n) := by
  unfold ext2ReadInode
  apply Keeps.ite (Keeps.pure _)
  apply Keeps.ite Keeps.diverge
  apply Keeps.ite (Keeps.pure _)
  apply Keeps.bind (Fat32.uninitialised_readOnly _)
  intro b
  apply Keeps.bind (readBlockSectors_readOnly _ _ _ _ _ _)
  intro r
  exact Keeps.ite (Keeps.pure _) (Keeps.pure _)

theorem readFileLoop_readOnly (fs : Ext2Fs) (inode : Bytes) (size k i bytesRead currentOffset : Nat)
    (b : Bytes) : ReadOnly (readFileLoop fs inode size k i bytesRead currentOffset b) := by
  induction k generalizing i bytesRead currentOffset b with
  | zero => exact Keeps.diverge
  | succ k ih =>
      rw [readFileLoop]
      apply Keeps.ite (Keeps.pure _)
      apply Keeps.ite (Keeps.pure _)
      apply Keeps.ite (ih _ _ _ _)
      apply Keeps.bind (Fat32.keeps_within (Fat32.uninitialised_readOnly _) _)
      intro blockBuffer
      apply Keeps.bind (Fat32.keeps_within (readBlockSectors_readOnly _ _ _ _ _ _) _)
      intro r
      exact Keeps.ite (Keeps.pure _) (ih _ _ _ _)

theorem ext2VfsRead_readOnly (node : Vfs.Node sig) (offset size : Nat) (b : Bytes) :
    ReadOnly (ext2VfsRead node offset size b) := by
  unfold ext2VfsRead
  split
  · exact Keeps.pure _
  · apply Keeps.bind (Fat32.keeps_within (ext2ReadInode_readOnly _ _) _)
    rintro (_ | inode)
    · exact Keeps.pure _
    · apply Keeps.bind
      · unfold ext2ReadFile
        exact Keeps.ite (Keeps.pure _) (readFileLoop_readOnly _ _ _ _ _ _ _ _)
      · intro r
        exact Keeps.ite (Keeps.pure _) (Keeps.pure _)

end frame

end MicroKernel.Ext2
