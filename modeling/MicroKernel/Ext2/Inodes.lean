import MicroKernel.Ext2.FileData
import MicroKernel.Lib.Records

set_option autoImplicit false

/-! # Writing an inode

`ext2_write_inode` reads the block that an inode is in, puts the inode into it and writes it back. On
a well-formed volume an inode that was written is read back, the others are as before, and no other
block is written (`writtenAlone_iff`): as long as no inode lies 4 GB or more behind the start of its
table, where the byte offset of 32 bits wraps.
-/

namespace MicroKernel.Ext2

open MicroKernel.Lib Bytes
open MicroKernel.Fat32 (Drive Env Fs Sector ataWriteSector run_uninitialised)

namespace Ext2Fs

variable (fs : Ext2Fs)

/-- The number of an inode of the volume. -/
def ValidInode (n : Nat) : Prop :=
  0 < n ∧ n < 2 ^ 32 ∧ fs.ext2GetInodeBlockGroup n < fs.numBlockGroups

/-- The blocks of an inode table. -/
def tableBlocks : Nat := Records.blocks fs.inodeSize fs.blockSize fs.superblock.inodesPerGroup

/-- Inodes lie whole in their blocks, and the tables of the groups do not overlap. -/
structure InodeTables : Prop where
  accepted : AcceptedSize fs.blockSize
  inodesPerGroup_pos : 0 < fs.superblock.inodesPerGroup
  inodeSize_ge : 128 ≤ fs.inodeSize
  inodeSize_dvd : fs.inodeSize ∣ fs.blockSize
  apart : ∀ g h, g < fs.numBlockGroups → h < fs.numBlockGroups → g ≠ h →
    fs.inodeTable g + fs.tableBlocks ≤ fs.inodeTable h ∨
      fs.inodeTable h + fs.tableBlocks ≤ fs.inodeTable g

/-- Every inode lies less than 4 GB behind the start of its table, where the driver can reach. -/
def InodesInReach : Prop :=
  ∀ n, fs.ValidInode n →
    fs.ext2GetInodeTableIndex n * fs.inodeSize < 2 ^ 32 ∧ fs.Reaches (fs.inodeBlock n)

/-- Sector `lba` belongs to block `b`. -/
def InBlock (b lba : Nat) : Prop :=
  b * fs.sectorsPerBlock ≤ lba ∧ lba < (b + 1) * fs.sectorsPerBlock

instance (b lba : Nat) : Decidable (fs.InBlock b lba) := inferInstanceAs (Decidable (_ ∧ _))

/-- The 128 bytes that `ext2_read_inode(m)` gives in one state and in another. -/
def SameInode (m : Nat) (s s' : Fs) : Prop :=
  ∀ e e' : Env, e.Reliable → e'.Reliable → ∃ a b, (ext2ReadInode fs m).run e s = some (some a, s) ∧
    (ext2ReadInode fs m).run e' s' = some (some b, s') ∧ Filled b a 0 128

/-- Writing an inode returns true, the inode is read back, every other one is what it was, and only
the block of the inode has changed. -/
def WrittenAlone : Prop :=
  ∀ (e : Env) (s : Fs) (n : Nat) (v : Bytes), e.Reliable → fs.ValidInode n → ∃ s',
    (ext2WriteInode fs n v).run e s = some (true, s') ∧
    (∀ e' : Env, e'.Reliable → ∃ a, (ext2ReadInode fs n).run e' s' = some (some a, s') ∧
      Filled a v 0 128) ∧
    (∀ m, fs.ValidInode m → m ≠ n → fs.SameInode m s s') ∧
    ∀ drive lba, ¬ (drive = fs.drive ∧ fs.InBlock (fs.inodeBlock n) lba) →
      s'.disks drive lba = s.disks drive lba

/-- The state with other contents of block `b`. -/
def withBlock (s : Fs) (b : Nat) (buffer : Bytes) : Fs :=
  { s with disks := Function.update s.disks fs.drive fun lba =>
      if fs.InBlock b lba then Sector.ofBytes buffer ((lba - b * fs.sectorsPerBlock) * 512)
      else s.disks fs.drive lba }

end Ext2Fs

/-! ## Blocks -/

section blocks

variable {fs : Ext2Fs} {e : Env} {s : Fs} {b : Nat} {buffer : Bytes}

theorem run_ataWriteSector (he : e.Reliable) (l : Fat32.Label) (drive : Drive) (lba : Nat)
    (buffer : Bytes) (a : Nat) :
    (ataWriteSector l drive lba buffer a).run e s
      = some (true,
          { s with
            disks := Function.update s.disks drive
              (Function.update (s.disks drive) (lba % 2 ^ 28) (Sector.ofBytes buffer a)) }) := by
  have hfails : e.fails l = false := he _
  unfold ataWriteSector
  simp only [Prog.run_bind, Prog.run_ask, Option.bind_some, Prog.run_ite,
    Fat32.loses_of_not_fails hfails, hfails, Bool.false_eq_true, if_false, Prog.run_modify,
    Prog.run_pure, Bool.not_false]

/-- The loop of `ext2_write_block`, of which the sectors in front of `i` are written. -/
theorem run_writeBlockSectors (buffer : Bytes) (he : e.Reliable) (hb : fs.Reaches b) {n i : Nat}
    (hn : i + n = fs.sectorsPerBlock) {d : Disk}
    (hd : ∀ lba, d lba = if b * fs.sectorsPerBlock ≤ lba ∧ lba < b * fs.sectorsPerBlock + i then
      Sector.ofBytes buffer ((lba - b * fs.sectorsPerBlock) * 512) else s.disks fs.drive lba) :
    (writeBlockSectors fs.drive (b * fs.sectorsPerBlock) n i buffer).run e
        { s with disks := Function.update s.disks fs.drive d }
      = some (true, fs.withBlock s b buffer) := by
  induction n generalizing i d with
  | zero =>
      have hblock : d = fun lba => if fs.InBlock b lba then
          Sector.ofBytes buffer ((lba - b * fs.sectorsPerBlock) * 512)
          else s.disks fs.drive lba := by
        funext lba
        rw [hd]
        refine if_congr ?_ rfl rfl
        unfold Ext2Fs.InBlock
        rw [Nat.add_mul b 1, Nat.one_mul, ← hn, Nat.add_zero]
      unfold Ext2Fs.withBlock
      rw [hblock]
      rfl
  | succ n ih =>
      have hlba : b * fs.sectorsPerBlock + i < 2 ^ 28 := by
        unfold Ext2Fs.Reaches at hb
        rw [Nat.add_mul, Nat.one_mul] at hb
        omega
      rw [writeBlockSectors, Prog.run_bind, u32_eq_self (by omega), run_ataWriteSector he,
        Option.bind_some, Nat.mod_eq_of_lt hlba]
      dsimp only
      rw [Prog.run_ite, if_neg (by simp), Function.update_idem, Function.update_self]
      refine ih (by omega) fun lba => ?_
      by_cases hnow : lba = b * fs.sectorsPerBlock + i
      · subst hnow
        rw [Function.update_self, if_pos (by omega), Nat.add_sub_cancel_left]
      · rw [Function.update_of_ne hnow, hd]
        exact if_congr (by omega) rfl rfl

/-- **`ext2_write_block`**. -/
theorem run_ext2WriteBlock (he : e.Reliable) (hb : fs.Reaches b) (hfs : fs.HasBlocks)
    (buffer : Bytes) :
    (ext2WriteBlock fs b buffer).run e s = some (true, fs.withBlock s b buffer) := by
  have hpos := hfs.pos
  have hlt : b * fs.sectorsPerBlock < 2 ^ 32 := by
    unfold Ext2Fs.Reaches at hb
    rw [Nat.add_mul] at hb
    omega
  have hrun := run_writeBlockSectors (s := s) buffer he hb (Nat.zero_add _)
    (d := s.disks fs.drive) fun lba => (if_neg (by omega)).symm
  rw [Function.update_eq_self] at hrun
  unfold ext2WriteBlock
  dsimp only
  change (writeBlockSectors fs.drive (u32 (b * fs.sectorsPerBlock)) fs.sectorsPerBlock 0
    buffer).run e s = _
  rw [u32_eq_self hlt]
  exact hrun

/-- The block that was written has the bytes of the buffer. -/
theorem blockBytes_withBlock_same (hfs : fs.HasBlocks) (s : Fs) (b : Nat) (buffer : Bytes) {x : Nat}
    (hx : x < fs.blockSize) :
    fs.blockBytes ((fs.withBlock s b buffer).disks fs.drive) b x = buffer x := by
  have hi : x / 512 < fs.sectorsPerBlock :=
    Nat.div_lt_of_lt_mul (by rw [Nat.mul_comm, hfs.sectors]; exact hx)
  have hin : fs.InBlock b (b * fs.sectorsPerBlock + x / 512) := by
    unfold Ext2Fs.InBlock
    rw [Nat.add_mul, Nat.one_mul]
    omega
  unfold Ext2Fs.blockBytes Ext2Fs.withBlock joined
  dsimp only
  rw [Function.update_self, if_pos hin, Sector.bytes_ofBytes _ _ (Nat.mod_lt _ (by decide)),
    Nat.add_sub_cancel_left]
  congr 1
  omega

/-- Every other block has the bytes that it had. -/
theorem blockBytes_withBlock_ne (hfs : fs.HasBlocks) (s : Fs) {b c : Nat} (hc : c ≠ b)
    (buffer : Bytes) {x : Nat} (hx : x < fs.blockSize) :
    fs.blockBytes ((fs.withBlock s b buffer).disks fs.drive) c x
      = fs.blockBytes (s.disks fs.drive) c x := by
  have hi : x / 512 < fs.sectorsPerBlock :=
    Nat.div_lt_of_lt_mul (by rw [Nat.mul_comm, hfs.sectors]; exact hx)
  have hout : ¬ fs.InBlock b (c * fs.sectorsPerBlock + x / 512) := by
    rintro ⟨h1, h2⟩
    rcases Nat.lt_or_gt_of_ne hc with h | h
    · have hle : (c + 1) * fs.sectorsPerBlock ≤ b * fs.sectorsPerBlock := Nat.mul_le_mul_right _ h
      rw [Nat.add_mul, Nat.one_mul] at hle
      omega
    · have hle : (b + 1) * fs.sectorsPerBlock ≤ c * fs.sectorsPerBlock := Nat.mul_le_mul_right _ h
      omega
  unfold Ext2Fs.blockBytes Ext2Fs.withBlock joined
  dsimp only
  rw [Function.update_self, if_neg hout]

end blocks

/-! ## Inodes -/

section inodes

variable {fs : Ext2Fs} {e : Env} {s : Fs} {n m : Nat}

/-- The buffer is the block of inode `n`, with `v` for the inode. -/
def Ext2Fs.HasInodeIn (fs : Ext2Fs) (s : Fs) (n : Nat) (v buffer : Bytes) : Prop :=
  ∀ x, x < fs.blockSize → buffer x
    = if fs.inodeOffset n ≤ x ∧ x < fs.inodeOffset n + 128 then v (x - fs.inodeOffset n)
      else fs.blockBytes (s.disks fs.drive) (fs.inodeBlock n) x

/-- **`ext2_write_inode`**: the block that it takes the inode to be in, with the inode in it. -/
theorem run_ext2WriteInode (he : e.Reliable) (hfs : fs.WellFormed) (hn : fs.HasInode n) (v : Bytes) :
    ∃ buffer, fs.HasInodeIn s n v buffer ∧
      (ext2WriteInode fs n v).run e s
        = some (true, fs.withBlock s (fs.inodeBlock n) buffer) := by
  obtain ⟨buffer, hrun, hfill⟩ := run_ext2ReadBlock (s := s) he hfs.toHasBlocks (fs.inodeBlock n)
    (e.junk (.load 0 :: e.path))
  obtain ⟨haddressed, hoffset⟩ := hn.addressed hfs.toHasBlocks
  refine ⟨copy buffer (fs.inodeOffset n) v 0 128, fun x hx => ?_, ?_⟩
  · unfold copy
    rw [hfill x hx, Nat.zero_add, Nat.zero_add,
      Ext2Fs.addressedBytes_eq hfs.toHasBlocks hn.reach _ hx]
  · unfold ext2WriteInode
    rw [Prog.run_ite, if_neg (by have := hn.pos; omega), Prog.run_ite,
      if_neg (by have := hfs.inodesPerGroup_pos; omega)]
    dsimp only
    rw [Prog.run_ite, if_neg (by have := hn.group; omega), Prog.run_bind, run_uninitialised,
      Option.bind_some]
    change Prog.run (Bind.bind (ext2ReadBlock fs (fs.addressedInodeBlock n) _ 0)
      fun r => if (!r.1) = true then pure false else ext2WriteBlock fs (fs.addressedInodeBlock n)
        (Libc.memcpy r.2 (fs.addressedInodeOffset n) v 0 128)) e s = _
    rw [haddressed, hoffset, Prog.run_bind, hrun, Option.bind_some]
    dsimp only
    rw [Prog.run_ite, if_neg (by simp), Libc.memcpy_eq _ _ _ _ (by decide)]
    exact run_ext2WriteBlock he hn.reach hfs.toHasBlocks _

theorem Ext2Fs.InodeTables.wellFormed (h : fs.InodeTables) : fs.WellFormed :=
  ⟨h.accepted.hasBlocks, h.inodesPerGroup_pos⟩

/-- The block of an inode is in the table of its group. -/
theorem Ext2Fs.InodeTables.inodeBlock_lt (h : fs.InodeTables) (n : Nat) :
    fs.inodeBlock n < fs.inodeTable (fs.ext2GetInodeBlockGroup n) + fs.tableBlocks := by
  have hge := h.inodeSize_ge
  have hlt := Records.block_lt (r := fs.inodeSize) (by omega) h.accepted.hasBlocks.blockSize_pos
    (show fs.ext2GetInodeTableIndex n < fs.superblock.inodesPerGroup from
      Nat.mod_lt _ h.inodesPerGroup_pos)
  exact Nat.add_lt_add_left hlt _

/-- An inode that is in reach. -/
theorem Ext2Fs.InodeTables.hasInode (h : fs.InodeTables) (hreach : fs.InodesInReach)
    (hn : fs.ValidInode n) : fs.HasInode n := by
  have hge := h.inodeSize_ge
  have hinside := Records.inside h.inodeSize_dvd h.accepted.hasBlocks.blockSize_pos
    (fs.ext2GetInodeTableIndex n)
  refine ⟨hn.1, hn.2.2, (hreach n hn).1, ?_, (hreach n hn).2⟩
  unfold Ext2Fs.inodeOffset
  omega

/-- Two inodes of one block are in the same group, and do not overlap. -/
theorem Ext2Fs.InodeTables.inodes_apart (h : fs.InodeTables) (hn : fs.ValidInode n)
    (hm : fs.ValidInode m) (hne : m ≠ n) (hblock : fs.inodeBlock m = fs.inodeBlock n) :
    fs.inodeOffset m + 128 ≤ fs.inodeOffset n ∨ fs.inodeOffset n + 128 ≤ fs.inodeOffset m := by
  have hge := h.inodeSize_ge
  have hgroup : fs.ext2GetInodeBlockGroup m = fs.ext2GetInodeBlockGroup n := by
    by_contra hg
    have hltn := h.inodeBlock_lt n
    have hltm := h.inodeBlock_lt m
    have hapart := h.apart _ _ hm.2.2 hn.2.2 hg
    unfold Ext2Fs.inodeBlock at hblock hltn hltm
    generalize fs.ext2GetInodeTableIndex m * fs.inodeSize / fs.blockSize = i at *
    generalize fs.ext2GetInodeTableIndex n * fs.inodeSize / fs.blockSize = j at *
    omega
  have hindex : fs.ext2GetInodeTableIndex m ≠ fs.ext2GetInodeTableIndex n := by
    intro hi
    have hsub : usub m 1 = usub n 1 := by
      rw [← Nat.div_add_mod (usub m 1) fs.superblock.inodesPerGroup,
        ← Nat.div_add_mod (usub n 1) fs.superblock.inodesPerGroup]
      exact congr (congrArg _ (congrArg _ hgroup)) hi
    rw [usub_of_le hm.1 hm.2.1, usub_of_le hn.1 hn.2.1] at hsub
    have hn1 := hn.1
    have hm1 := hm.1
    omega
  have hquot : fs.ext2GetInodeTableIndex m * fs.inodeSize / fs.blockSize
      = fs.ext2GetInodeTableIndex n * fs.inodeSize / fs.blockSize := by
    unfold Ext2Fs.inodeBlock at hblock
    rw [hgroup] at hblock
    omega
  have hrecords := Records.apart hindex hquot
  unfold Ext2Fs.inodeOffset
  omega

theorem Ext2Fs.InodeTables.addressedInodeOffset_eq (h : fs.InodeTables) (n : Nat) :
    fs.addressedInodeOffset n = fs.inodeOffset n := h.accepted.u32_mod _

/-- Where inodes are written as they should be, the driver looks for each of them in its block. -/
theorem Ext2Fs.WrittenAlone.inBlock (hwritten : fs.WrittenAlone) (h : fs.InodeTables)
    (hn : fs.ValidInode n) :
    fs.InBlock (fs.inodeBlock n)
      (fs.sectorNumber (fs.addressedInodeBlock n) (fs.inodeOffset n / 512)) := by
  by_contra hout
  have hge := h.inodeSize_ge
  have hinside := Records.inside h.inodeSize_dvd h.accepted.hasBlocks.blockSize_pos
    (fs.ext2GetInodeTableIndex n)
  -- an inode of ones is written to a disk of zeros
  obtain ⟨s', -, hback, -, hframe⟩ := hwritten Fat32.quietEnv (onEveryDrive fun _ => zeros) n
    (fun _ => 1) Fat32.quietEnv_reliable hn
  obtain ⟨a, hrun, hones⟩ := hback Fat32.quietEnv Fat32.quietEnv_reliable
  obtain ⟨a', hrun', hread⟩ := run_ext2ReadInode_addressed (s := s') Fat32.quietEnv_reliable
    h.wellFormed hn.1 hn.2.2 (by
      rw [h.addressedInodeOffset_eq]
      unfold Ext2Fs.inodeOffset
      omega)
  rw [hrun] at hrun'
  obtain rfl : a = a' := Option.some.inj (congrArg Prod.fst (Option.some.inj hrun'))
  have hzero := hread 0 (by decide)
  rw [hones 0 (by decide), h.addressedInodeOffset_eq] at hzero
  unfold Ext2Fs.addressedBytes joined at hzero
  dsimp only at hzero
  rw [Nat.add_zero, hframe _ _ fun hin => hout hin.2] at hzero
  exact absurd (hzero.trans (bytes_zeros _)) (by decide)

/-- An offset that wraps is that of a block in front of the inode's. -/
theorem Ext2Fs.addressedInodeBlock_lt (hfs : fs.HasBlocks) (hreach : fs.Reaches (fs.inodeBlock n))
    (hwraps : 2 ^ 32 ≤ fs.ext2GetInodeTableIndex n * fs.inodeSize) :
    fs.addressedInodeBlock n < fs.inodeBlock n := by
  have hblocks := hfs.le
  have hfront : u32 (fs.ext2GetInodeTableIndex n * fs.inodeSize) / fs.blockSize + 1
      ≤ fs.ext2GetInodeTableIndex n * fs.inodeSize / fs.blockSize := by
    rw [← Nat.add_div_right _ hfs.blockSize_pos]
    refine Nat.div_le_div_right ?_
    unfold u32
    omega
  have hsmall : fs.inodeBlock n < 2 ^ 32 := hreach.lt hfs.pos
  unfold Ext2Fs.inodeBlock at hsmall ⊢
  unfold Ext2Fs.addressedInodeBlock
  rw [u32_eq_self (by omega)]
  omega

/-- A block in front of one in reach has none of its sectors. -/
theorem Ext2Fs.not_inBlock_of_lt (hfs : fs.HasBlocks) {b c x : Nat} (hreach : fs.Reaches b)
    (hlt : c < b) (hx : x < fs.blockSize) : ¬ fs.InBlock b (fs.sectorNumber c (x / 512)) := by
  have hi : x / 512 < fs.sectorsPerBlock :=
    Nat.div_lt_of_lt_mul (by rwa [Nat.mul_comm, hfs.sectors])
  have hfront : (c + 1) * fs.sectorsPerBlock ≤ b * fs.sectorsPerBlock := Nat.mul_le_mul_right _ hlt
  have hbound : (c + 1) * fs.sectorsPerBlock ≤ 2 ^ 28 := by
    unfold Ext2Fs.Reaches at hreach
    rw [Nat.add_mul] at hreach
    omega
  rw [Ext2Fs.sectorNumber_eq hbound hi]
  rw [Nat.add_mul, Nat.one_mul] at hfront
  rintro ⟨hle, -⟩
  omega

section written

variable {v buffer : Bytes} {x : Nat} (h : fs.InodeTables) (hbuffer : fs.HasInodeIn s n v buffer)
include h hbuffer

/-- The inode is there, -/
theorem inodeBytes_withBlock_same (hn : fs.HasInode n) (hx : x < 128) :
    fs.inodeBytes ((fs.withBlock s (fs.inodeBlock n) buffer).disks fs.drive) n x = v x := by
  have hin := hn.inside
  unfold Ext2Fs.inodeBytes
  rw [blockBytes_withBlock_same h.accepted.hasBlocks _ _ _ (by omega), hbuffer _ (by omega),
    if_pos (by omega), Nat.add_sub_cancel_left]

/-- and every other one is as it was. -/
theorem inodeBytes_withBlock_ne (hn : fs.ValidInode n) (hm : fs.ValidInode m) (hne : m ≠ n)
    (hm' : fs.HasInode m) (hx : x < 128) :
    fs.inodeBytes ((fs.withBlock s (fs.inodeBlock n) buffer).disks fs.drive) m x
      = fs.inodeBytes (s.disks fs.drive) m x := by
  have hin := hm'.inside
  unfold Ext2Fs.inodeBytes
  by_cases hblock : fs.inodeBlock m = fs.inodeBlock n
  · -- another inode of the block
    have hapart := h.inodes_apart hn hm hne hblock
    rw [hblock, blockBytes_withBlock_same h.accepted.hasBlocks _ _ _ (by omega),
      hbuffer _ (by omega), if_neg (by omega)]
  · exact blockBytes_withBlock_ne h.accepted.hasBlocks _ hblock _ (by omega)

end written

/-- **When an inode is written alone**: every inode has to be where the driver looks for it. -/
theorem writtenAlone_iff (h : fs.InodeTables) : fs.WrittenAlone ↔ fs.InodesInReach := by
  have hfs := h.wellFormed
  constructor
  · intro hwritten n hn
    have hin := hwritten.inBlock h hn
    have hbound : fs.sectorNumber (fs.addressedInodeBlock n) (fs.inodeOffset n / 512) < 2 ^ 28 :=
      Nat.mod_lt _ (by decide)
    have hreach : fs.Reaches (fs.inodeBlock n) := by
      by_contra hfar
      have hfront := h.accepted.le_of_not_reaches hfar
      have hle := hin.1
      omega
    refine ⟨?_, hreach⟩
    by_contra hwraps
    have hlt := Ext2Fs.addressedInodeBlock_lt hfs.toHasBlocks hreach (Nat.not_lt.mp hwraps)
    exact Ext2Fs.not_inBlock_of_lt hfs.toHasBlocks hreach hlt (Nat.mod_lt _ hfs.blockSize_pos) hin
  · intro hreach e s n v he hn
    have hinode := h.hasInode hreach hn
    obtain ⟨buffer, hbuffer, hrun⟩ := run_ext2WriteInode (s := s) he hfs hinode v
    refine ⟨_, hrun, fun e' he' => ?_, fun m hm hne e₁ e₂ he₁ he₂ => ?_, fun drive lba hout => ?_⟩
    · obtain ⟨a, hread, hfill⟩ := run_ext2ReadInode
        (s := fs.withBlock s (fs.inodeBlock n) buffer) he' hfs hinode
      refine ⟨a, hread, fun x hx => ?_⟩
      rw [hfill x hx, Nat.zero_add, inodeBytes_withBlock_same h hbuffer hinode hx]
    · have hinode' := h.hasInode hreach hm
      obtain ⟨a, hread, hfill⟩ := run_ext2ReadInode (s := s) he₁ hfs hinode'
      obtain ⟨b, hread', hfill'⟩ := run_ext2ReadInode
        (s := fs.withBlock s (fs.inodeBlock n) buffer) he₂ hfs hinode'
      refine ⟨a, b, hread, hread', fun x hx => ?_⟩
      rw [hfill' x hx, Nat.zero_add, hfill x hx, Nat.zero_add,
        inodeBytes_withBlock_ne h hbuffer hn hm hne hinode' hx]
    · unfold Ext2Fs.withBlock
      dsimp only
      by_cases hdrive : drive = fs.drive
      · subst hdrive
        rw [Function.update_self, if_neg fun hblock => hout ⟨rfl, hblock⟩]
      · rw [Function.update_of_ne hdrive]

end inodes

/-! ## Two volumes -/

/-- A volume with eight inodes. -/
theorem writtenAlone_iff_eight : (volumeOf 1024).WrittenAlone := by
  have htables : (volumeOf 1024).InodeTables :=
    ⟨⟨0, by decide, rfl⟩, by decide, by decide, by decide, fun g h hg hh hne => by
      have hg' : g < 1 := hg
      have hh' : h < 1 := hh
      omega⟩
  refine (writtenAlone_iff htables).mpr fun n hn => ?_
  have hindex : (volumeOf 1024).ext2GetInodeTableIndex n < 8 := Nat.mod_lt _ (by decide)
  have hdiv : (volumeOf 1024).ext2GetInodeTableIndex n * 128 / 1024 = 0 :=
    Nat.div_eq_of_lt (by omega)
  have hgroup : (volumeOf 1024).ext2GetInodeBlockGroup n = 0 := Nat.lt_one_iff.mp hn.2.2
  refine ⟨Nat.lt_of_lt_of_le (Nat.mul_lt_mul_of_pos_right hindex (by decide)) (by decide), ?_⟩
  have hblock : (volumeOf 1024).inodeBlock n = 5 := by
    unfold Ext2Fs.inodeBlock
    rw [hgroup]
    exact congrArg (5 + ·) hdiv
  rw [hblock]
  unfold Ext2Fs.Reaches
  decide

/-- A volume with 131073 inodes of 32 KB in its group. -/
def largeInodes : Ext2Fs where
  superblock := ⟨65600, 0, 6, 524288, 131073, 0xEF53, 32768⟩
  groupDescTable := store32 (fun _ => 0) 8 5
  blockSize := 65536
  numBlockGroups := 1
  drive := ⟨0x1F0, true⟩

/-- The last inode is written over the first. -/
theorem not_writtenAlone : largeInodes.InodeTables ∧ ¬ largeInodes.WrittenAlone := by
  have htables : largeInodes.InodeTables :=
    ⟨⟨6, by decide, by decide⟩, by decide, by decide, by decide, fun g h hg hh hne => by
      have hg' : g < 1 := hg
      have hh' : h < 1 := hh
      omega⟩
  refine ⟨htables, fun hwritten => ?_⟩
  have hin := hwritten.inBlock htables
    (show largeInodes.ValidInode 131073 from ⟨by decide, by decide, by decide⟩)
  exact absurd hin (by decide)

end MicroKernel.Ext2
