import MicroKernel.Ext2.FileData
import MicroKernel.Lib.Checked
import MicroKernel.Lib.Records

set_option autoImplicit false

/-! # Which superblocks are mounted safely

The size of a block, the number of groups and the size of an inode come from the disk, and `ext2_init`
checks the size of a block only. `ext2_init` and `ext2_read_inode` appear here once more with checks:
of the count of the shift, in front of every read into the table of the groups, and in front of the
copy of an inode. `mountsSafely_iff` says for which superblocks no check fails.
-/

namespace MicroKernel.Ext2

open MicroKernel.Lib Bytes
open MicroKernel.Fat32 (Drive Env Fs Sector Io ataReadSector within uninitialised run_within
  run_uninitialised)
open Prog (Below)

/-! ## Checks -/

/-- `ext2ReadInode` with the checks: the descriptor is one of the table, and the 128 bytes of the
inode are in the block buffer. -/
def ext2ReadInodeChecked (fs : Ext2Fs) (inodeNum : Nat) : Io (Option Bytes) := do
  if inodeNum = 0 then return none
  if fs.superblock.inodesPerGroup = 0 then Prog.diverge
  let blockGroup := fs.ext2GetInodeBlockGroup inodeNum
  let index := fs.ext2GetInodeTableIndex inodeNum
  if fs.numBlockGroups ≤ blockGroup then return none
  Prog.check (blockGroup < fs.numBlockGroups)
  let blockOffset := u32 (index * fs.inodeSize) / fs.blockSize
  let offsetInBlock := u32 (index * fs.inodeSize) % fs.blockSize
  let blockBuffer ← uninitialised (.load 0)
  let (ok, blockBuffer) ←
    ext2ReadBlock fs (u32 (fs.inodeTable blockGroup + blockOffset)) blockBuffer 0
  if !ok then return none
  Prog.check (offsetInBlock + 128 ≤ fs.blockSize)
  return some fun x => blockBuffer (offsetInBlock + x)

/-- `loadGroups` with the check: the block has room in the table. -/
def loadGroupsChecked (fs : Ext2Fs) (gdtSize gdtBlock : Nat) : Nat → Nat → Bytes → Io (Option Bytes)
  | 0, _, table => return some table
  | n + 1, i, table => do
      Prog.check (i * fs.blockSize + fs.blockSize ≤ gdtSize)
      let (ok, table) ← within (.cluster i)
        (ext2ReadBlock fs (u32 (gdtBlock + i)) table (i * fs.blockSize))
      if !ok then return none
      loadGroupsChecked fs gdtSize gdtBlock n (i + 1) table

namespace Superblock

variable (sb : Superblock)

/-- The size of a block that `ext2_init` computes. -/
def blockSize : Nat := u32 (1024 * 2 ^ (sb.logBlockSize % 32))

/-- The number of groups. -/
def numBlockGroups : Nat := usub (u32 (sb.blocksCount + sb.blocksPerGroup)) 1 / sb.blocksPerGroup

/-- The bytes that are allocated for the table of the groups. -/
def gdtSize : Nat := u32 (sb.numBlockGroups * 32)

/-- The blocks that are read into it. -/
def gdtBlocks : Nat := usub (u32 (sb.gdtSize + sb.blockSize)) 1 / sb.blockSize

end Superblock

/-- `ext2Init` behind the superblock, with the checks: the count of the shift is less than 32. -/
def mountSuperblockChecked (drive : Drive) (superblock : Superblock) : Io (Option Ext2Fs) := do
  Prog.check (superblock.logBlockSize < 32)
  if superblock.blockSize = 0 ∨ 65536 < superblock.blockSize then return none
  if superblock.blocksPerGroup = 0 then Prog.diverge
  else
    if (← Prog.ask fun e => e.outOfMemory (.store 0 :: e.path)) then return none
    let table ← Prog.ask fun e => e.junk (.store 0 :: e.path)
    let fs : Ext2Fs := ⟨superblock, table, superblock.blockSize, superblock.numBlockGroups, drive⟩
    match ← loadGroupsChecked fs superblock.gdtSize (u32 (superblock.firstDataBlock + 1))
      superblock.gdtBlocks 0 table with
    | none => return none
    | some table =>
        if (← Prog.ask fun e => e.outOfMemory (.store 1 :: e.path)) then return none
        return some { fs with groupDescTable := table }

/-- `ext2Init` with the checks. -/
def ext2InitChecked (drive : Drive) : Io (Option Ext2Fs) := do
  let buffer ← uninitialised .init
  let (ok, buffer) ← ataReadSector (.load 0) drive 2 buffer 0
  if !ok then return none
  let (ok, buffer) ← ataReadSector (.load 1) drive 3 buffer 512
  if !ok then return none
  let superblock := Superblock.ofBytes buffer
  if superblock.magic ≠ 0xEF53 then return none
  mountSuperblockChecked drive superblock

theorem ext2ReadInodeChecked_below (fs : Ext2Fs) (inodeNum : Nat) :
    Below (ext2ReadInodeChecked fs inodeNum) (ext2ReadInode fs inodeNum) := by
  have htail : ∀ b o, Below
      (do
        let blockBuffer ← uninitialised (.load 0)
        let (ok, blockBuffer) ← ext2ReadBlock fs b blockBuffer 0
        if !ok then return none
        Prog.check (o + 128 ≤ fs.blockSize)
        return some fun x => blockBuffer (o + x))
      (do
        let blockBuffer ← uninitialised (.load 0)
        let (ok, blockBuffer) ← ext2ReadBlock fs b blockBuffer 0
        if !ok then return none
        return some fun x => blockBuffer (o + x)) := by
    intro b o
    apply Below.bind (Below.refl _)
    intro buffer
    apply Below.bind (Below.refl _)
    intro r
    apply Below.ite (Below.refl _)
    exact Below.check_bind (Below.refl _)
  unfold ext2ReadInodeChecked ext2ReadInode
  apply Below.ite (Below.refl _)
  apply Below.ite
  · exact Below.bind (Below.refl _) fun _ => Below.ite (Below.refl _) (Below.check_bind (htail _ _))
  · exact Below.ite (Below.refl _) (Below.check_bind (htail _ _))

theorem loadGroupsChecked_below (fs : Ext2Fs) (gdtSize gdtBlock n i : Nat) (table : Bytes) :
    Below (loadGroupsChecked fs gdtSize gdtBlock n i table) (loadGroups fs gdtBlock n i table) := by
  induction n generalizing i table with
  | zero => exact Below.refl _
  | succ n ih =>
      rw [loadGroupsChecked, loadGroups]
      apply Below.check_bind
      apply Below.bind (Below.refl _)
      intro r
      apply Below.ite (Below.refl _)
      exact ih _ _

/-- A mount that has an outcome with the checks has the same without. -/
theorem ext2InitChecked_below (drive : Drive) : Below (ext2InitChecked drive) (ext2Init drive) := by
  unfold ext2InitChecked ext2Init
  apply Below.bind (Below.refl _)
  intro buffer
  apply Below.bind (Below.refl _)
  intro r
  apply Below.ite (Below.refl _)
  apply Below.bind (Below.refl _)
  intro r
  apply Below.ite (Below.refl _)
  apply Below.ite (Below.refl _)
  unfold mountSuperblockChecked
  apply Below.check_bind
  apply Below.ite (Below.refl _)
  apply Below.ite (Below.refl _)
  apply Below.bind (Below.refl _)
  intro failed
  apply Below.ite (Below.refl _)
  apply Below.bind (Below.refl _)
  intro table
  apply Below.bind (loadGroupsChecked_below _ _ _ _ _ _)
  intro r
  exact Below.refl _

/-! ## Safety -/

/-- The first 1024 bytes of `b` are the superblock of the disk. -/
def HasSuperblock (s : Fs) (drive : Drive) (b : Bytes) : Prop :=
  s.disks drive 2 = Sector.ofBytes b 0 ∧ s.disks drive 3 = Sector.ofBytes b 512

/-- `malloc` gives no memory of a size that it cannot serve. -/
def Serves (fits : Nat → Prop) (sb : Superblock) (e : Env) : Prop :=
  (e.outOfMemory (.store 0 :: e.path) = false → fits sb.gdtSize) ∧
    (e.outOfMemory (.store 1 :: e.path) = false → fits sb.blockSize)

/-- `ext2_init` returns, and so does `ext2_read_inode` on what it has mounted, and no check fails. -/
def MountsSafely (fits : Nat → Prop) (drive : Drive) (b : Bytes) : Prop :=
  ∀ (e : Env) (s : Fs), Serves fits (Superblock.ofBytes b) e → HasSuperblock s drive b → ∃ r s',
    (ext2InitChecked drive).run e s = some (r, s') ∧
      ∀ fs, r = some fs → ∀ (e' : Env) (s'' : Fs) (n : Nat), n < 2 ^ 32 →
        (ext2ReadInodeChecked fs n).run e' s'' ≠ none

/-- What the fields of a superblock have to be like. -/
structure SafeFields (fits : Nat → Prop) (sb : Superblock) : Prop where
  shift : sb.logBlockSize < 32
  groups : sb.logBlockSize ≤ 6 → 0 < sb.blocksPerGroup
  table : sb.logBlockSize ≤ 6 → fits sb.gdtSize → sb.gdtBlocks * sb.blockSize ≤ sb.gdtSize
  inodes : sb.logBlockSize ≤ 6 → fits sb.gdtSize → fits sb.blockSize →
    0 < sb.inodesPerGroup ∧ (0 < sb.numBlockGroups → ∀ i, i < sb.inodesPerGroup →
      i * (if sb.inodeSize = 0 then 128 else sb.inodeSize) % sb.blockSize + 128 ≤ sb.blockSize)

section safety

variable {fs : Ext2Fs} {e : Env} {s : Fs} {sb : Superblock} {drive : Drive} {b : Bytes}
  {fits : Nat → Prop}

/-- The sizes of a block that are accepted. -/
theorem Superblock.accepted_iff (hshift : sb.logBlockSize < 32) :
    ¬ (sb.blockSize = 0 ∨ 65536 < sb.blockSize) ↔ sb.logBlockSize ≤ 6 := by
  unfold blockSize
  rw [Nat.mod_eq_of_lt hshift]
  generalize sb.logBlockSize = k at hshift
  interval_cases k <;> decide

theorem Superblock.acceptedSize (h : sb.logBlockSize ≤ 6) : AcceptedSize sb.blockSize := by
  refine ⟨sb.logBlockSize, h, ?_⟩
  have hpow : 2 ^ sb.logBlockSize ≤ 2 ^ 6 := Nat.pow_le_pow_right (by decide) h
  unfold blockSize
  rw [Nat.mod_eq_of_lt (by omega), u32_eq_self (by omega)]

/-- A block is read or is not, wherever it is read to. -/
theorem run_ext2ReadBlock_outcome (fs : Ext2Fs) (e : Env) (s : Fs) (n : Nat) (buffer : Bytes)
    (a : Nat) :
    ∃ ok buffer', (ext2ReadBlock fs n buffer a).run e s = some ((ok, buffer'), s) ∧
      (e.Reliable → ok = true) := by
  have hloop : ∀ k i buffer, ∃ ok buffer',
      (readBlockSectors fs.drive (u32 (n * (fs.blockSize / 512))) k i
      buffer a).run e s = some ((ok, buffer'), s) ∧ (e.Reliable → ok = true) := by
    intro k
    induction k with
    | zero => exact fun i buffer => ⟨true, buffer, rfl, fun _ => rfl⟩
    | succ k ih =>
        intro i buffer
        rw [readBlockSectors, Prog.run_bind, run_ataReadSector, Option.bind_some]
        by_cases hfail : e.fails (.load i) = true
        · rw [if_pos hfail]
          exact ⟨false, buffer, rfl, fun he => absurd hfail (by rw [he.fails]; decide)⟩
        · rw [if_neg hfail]
          exact ih (i + 1) _
  exact hloop _ 0 buffer

/-- The table is read where there is room for every block of it. -/
theorem run_loadGroupsChecked (fs : Ext2Fs) (gdtBlock : Nat) {gdtSize n i : Nat} (table : Bytes)
    (hroom : ∀ j, j < i + n → j * fs.blockSize + fs.blockSize ≤ gdtSize) :
    ∃ r, (loadGroupsChecked fs gdtSize gdtBlock n i table).run e s = some (r, s) ∧
      (e.Reliable → r ≠ none) := by
  induction n generalizing i table with
  | zero => exact ⟨some table, rfl, fun _ => nofun⟩
  | succ n ih =>
      obtain ⟨ok, table', hrun, hok⟩ := run_ext2ReadBlock_outcome fs (e.enter (.cluster i)) s
        (u32 (gdtBlock + i)) table (i * fs.blockSize)
      rw [loadGroupsChecked, Prog.run_check_bind, if_pos (hroom i (by omega)), Prog.run_bind,
        run_within,
        hrun, Option.bind_some]
      dsimp only
      rw [Prog.run_ite]
      cases ok with
      | false => exact ⟨none, rfl, fun he => absurd (hok (he.enter _)) (by decide)⟩
      | true =>
          rw [if_neg (by simp)]
          exact ih table' fun j hj => hroom j (by omega)

/-- A table that was read, or was not for want of memory, had room. -/
theorem room_of_run_loadGroupsChecked (he : e.Reliable) {gdtSize gdtBlock n i : Nat} {table : Bytes}
    {r : Option Bytes × Fs}
    (hrun : (loadGroupsChecked fs gdtSize gdtBlock n i table).run e s = some r) {j : Nat}
    (hij : i ≤ j)
    (hj : j < i + n) : j * fs.blockSize + fs.blockSize ≤ gdtSize := by
  induction n generalizing i table with
  | zero => omega
  | succ n ih =>
      rw [loadGroupsChecked, Prog.run_check_bind] at hrun
      split at hrun
      · next hroom =>
          obtain ⟨ok, table', hblock, hok⟩ := run_ext2ReadBlock_outcome fs (e.enter (.cluster i)) s
            (u32 (gdtBlock + i)) table (i * fs.blockSize)
          obtain rfl := hok (he.enter _)
          rw [Prog.run_bind, run_within, hblock, Option.bind_some] at hrun
          dsimp only at hrun
          rw [Prog.run_ite, if_neg (by simp)] at hrun
          rcases Nat.eq_or_lt_of_le hij with rfl | hlt
          · exact hroom
          · exact ih hrun hlt (by omega)
      · cases hrun

/-- **`ext2_read_inode`** of an inode in a group of the volume: after the read of the block it comes to
the check that the inode lies in it. -/
theorem run_ext2ReadInodeChecked (hfs : AcceptedSize fs.blockSize)
    (hpos : 0 < fs.superblock.inodesPerGroup) (e : Env) (s : Fs) {n : Nat} (hn : n ≠ 0)
    (hgroup : fs.ext2GetInodeBlockGroup n < fs.numBlockGroups) :
    ∃ ok r, (e.Reliable → ok = true) ∧ (ext2ReadInodeChecked fs n).run e s
      = if !ok then some (none, s)
        else if fs.ext2GetInodeTableIndex n * fs.inodeSize % fs.blockSize + 128 ≤ fs.blockSize then
          some (r, s)
        else none := by
  obtain ⟨ok, buffer, hrun, hok⟩ := run_ext2ReadBlock_outcome fs e s
    (u32 (fs.inodeTable (fs.ext2GetInodeBlockGroup n)
      + u32 (fs.ext2GetInodeTableIndex n * fs.inodeSize) / fs.blockSize))
    (e.junk (.load 0 :: e.path)) 0
  refine ⟨ok, some fun x =>
    buffer (fs.ext2GetInodeTableIndex n * fs.inodeSize % fs.blockSize + x), hok, ?_⟩
  unfold ext2ReadInodeChecked
  rw [Prog.run_ite, if_neg hn, Prog.run_ite, if_neg (by omega)]
  dsimp only
  rw [Prog.run_ite, if_neg (by omega), Prog.run_check_bind, if_pos hgroup, Prog.run_bind,
    run_uninitialised, Option.bind_some, Prog.run_bind, hrun, Option.bind_some]
  dsimp only
  rw [Prog.run_ite, Prog.run_check_bind, hfs.u32_mod]
  rfl

/-- **When every inode is read safely.** -/
theorem readsInodes_iff (hfs : AcceptedSize fs.blockSize)
    (hper : fs.superblock.inodesPerGroup < 2 ^ 32) :
    (∀ (e : Env) (s : Fs) (n : Nat), n < 2 ^ 32 → (ext2ReadInodeChecked fs n).run e s ≠ none) ↔
      0 < fs.superblock.inodesPerGroup ∧ (0 < fs.numBlockGroups →
        ∀ i, i < fs.superblock.inodesPerGroup →
          i * fs.inodeSize % fs.blockSize + 128 ≤ fs.blockSize) := by
  constructor
  · intro h
    have hpos : 0 < fs.superblock.inodesPerGroup := by
      by_contra hzero
      refine h Fat32.quietEnv (onEveryDrive fun _ => zeros) 1 (by decide) ?_
      unfold ext2ReadInodeChecked
      rw [Prog.run_ite, if_neg (by decide), Prog.run_ite, if_pos (by omega)]
      rfl
    refine ⟨hpos, fun hgroups i hi => ?_⟩
    -- inode `i + 1` of the first group
    have hsub : usub (i + 1) 1 = i := usub_of_le (by omega) (by omega)
    have hgroup : fs.ext2GetInodeBlockGroup (i + 1) = 0 := by
      unfold Ext2Fs.ext2GetInodeBlockGroup
      rw [hsub, Nat.div_eq_of_lt hi]
    have hindex : fs.ext2GetInodeTableIndex (i + 1) = i := by
      unfold Ext2Fs.ext2GetInodeTableIndex
      rw [hsub, Nat.mod_eq_of_lt hi]
    obtain ⟨ok, r, hok, hrun⟩ := run_ext2ReadInodeChecked hfs hpos Fat32.quietEnv
      (onEveryDrive fun _ => zeros) (Nat.succ_ne_zero i) (by rwa [hgroup])
    rw [hok Fat32.quietEnv_reliable, if_neg (by simp), hindex] at hrun
    by_contra hout
    rw [if_neg hout] at hrun
    exact h _ _ (i + 1) (by omega) hrun
  · rintro ⟨hpos, hinside⟩ e s n -
    by_cases hn : n = 0
    · subst hn
      exact nofun
    by_cases hgroup : fs.ext2GetInodeBlockGroup n < fs.numBlockGroups
    · obtain ⟨ok, r, -, hrun⟩ := run_ext2ReadInodeChecked hfs hpos e s hn hgroup
      have hin := hinside (by omega) (fs.ext2GetInodeTableIndex n) (Nat.mod_lt _ hpos)
      rw [hrun, if_pos hin]
      cases ok <;> simp
    · unfold ext2ReadInodeChecked
      rw [Prog.run_ite, if_neg hn, Prog.run_ite, if_neg (by omega)]
      dsimp only
      rw [Prog.run_ite, if_pos (by omega)]
      exact nofun

theorem Superblock.ofBytes_congr {b' : Bytes} (h : ∀ x, x < 1024 → b' x = b x) :
    ofBytes b' = ofBytes b := by
  have hword : ∀ x, x + 4 ≤ 1024 → load32 b' x = load32 b x := fun x hx =>
    load32_congr fun i hi => h _ (by omega)
  have hhalf : ∀ x, x + 2 ≤ 1024 → load16 b' x = load16 b x := fun x hx => by
    unfold load16
    rw [h _ (by omega), h _ (by omega)]
  unfold ofBytes
  rw [hword 4 (by decide), hword 20 (by decide), hword 24 (by decide), hword 32 (by decide),
    hword 40 (by decide), hhalf 56 (by decide), hhalf 88 (by decide)]

/-- The superblock that is read is that of the disk. -/
theorem run_ext2InitChecked (e : Env) (hs : HasSuperblock s drive b)
    (hmagic : (Superblock.ofBytes b).magic = 0xEF53) :
    (ext2InitChecked drive).run e s = some (none, s) ∧ ¬ e.Reliable ∨
      (ext2InitChecked drive).run e s
        = (mountSuperblockChecked drive (Superblock.ofBytes b)).run e s := by
  unfold ext2InitChecked
  rw [Prog.run_bind, run_uninitialised, Option.bind_some, Prog.run_bind, run_ataReadSector,
    Option.bind_some]
  by_cases hfirst : e.fails (.load 0) = true
  · rw [if_pos hfirst]
    exact Or.inl ⟨rfl, fun he => absurd hfirst (by rw [he.fails]; decide)⟩
  · rw [if_neg hfirst]
    dsimp only
    rw [Prog.run_ite, if_neg (by simp), Prog.run_bind, run_ataReadSector, Option.bind_some]
    by_cases hsecond : e.fails (.load 1) = true
    · rw [if_pos hsecond]
      exact Or.inl ⟨rfl, fun he => absurd hsecond (by rw [he.fails]; decide)⟩
    · have hsame : ∀ x, x < 1024 → copy (copy (e.junk (.init :: e.path)) 0
          (Sector.bytes (s.disks drive (2 % 2 ^ 28))) 0 512) 512
          (Sector.bytes (s.disks drive (3 % 2 ^ 28))) 0 512 x = b x := by
        intro x hx
        rw [show 2 % 2 ^ 28 = 2 by decide, show 3 % 2 ^ 28 = 3 by decide, hs.1, hs.2]
        rcases Nat.lt_or_ge x 512 with hlt | hge
        · rw [copy_outside _ _ _ (by omega), copy_inside _ _ _ (Nat.zero_le x) (by omega),
            Nat.zero_add,
            Nat.sub_zero, Sector.bytes_ofBytes _ _ hlt, Nat.zero_add]
        · rw [copy_inside _ _ _ hge (by omega), Nat.zero_add, Sector.bytes_ofBytes _ _ (by omega),
            Nat.add_sub_cancel' hge]
      rw [if_neg hsecond]
      dsimp only
      rw [Prog.run_ite, if_neg (by simp), Prog.run_ite, Superblock.ofBytes_congr hsame,
        if_neg (not_not_intro hmagic)]
      exact Or.inr rfl

/-- A superblock with a size of a block that is accepted, and blocks in its groups. -/
theorem run_mountSuperblockChecked (drive : Drive) (e : Env) (s : Fs) (hsize : sb.logBlockSize ≤ 6)
    (hgroups : 0 < sb.blocksPerGroup) :
    (mountSuperblockChecked drive sb).run e s
      = if e.outOfMemory (.store 0 :: e.path) then some (none, s)
        else ((loadGroupsChecked
          ⟨sb, e.junk (.store 0 :: e.path), sb.blockSize, sb.numBlockGroups, drive⟩ sb.gdtSize (u32 (sb.firstDataBlock + 1))
          sb.gdtBlocks 0 (e.junk (.store 0 :: e.path))).run e s).bind
          fun r => match r.1 with
            | none => some (none, r.2)
            | some table =>
                if e.outOfMemory (.store 1 :: e.path) then some (none, r.2)
                else some (some ⟨sb, table, sb.blockSize, sb.numBlockGroups, drive⟩, r.2) := by
  have hshift : sb.logBlockSize < 32 := by omega
  unfold mountSuperblockChecked
  rw [Prog.run_check_bind, if_pos hshift, Prog.run_ite,
    if_neg ((Superblock.accepted_iff hshift).mpr hsize),
    Prog.run_ite, if_neg (by omega), Prog.run_bind, Prog.run_ask, Option.bind_some, Prog.run_ite]
  by_cases hfirst : e.outOfMemory (.store 0 :: e.path) = true
  · rw [if_pos hfirst, if_pos hfirst]
    rfl
  · rw [if_neg hfirst, if_neg hfirst, Prog.run_bind, Prog.run_ask, Option.bind_some, Prog.run_bind]
    congr 1
    funext r
    obtain ⟨r, s'⟩ := r
    cases r with
    | none => rfl
    | some table =>
        dsimp only
        rw [Prog.run_bind, Prog.run_ask, Option.bind_some, Prog.run_ite]
        rfl

/-- The table has room for every block of it that is read. -/
theorem Superblock.room_iff (sb : Superblock) :
    (∀ j, j < sb.gdtBlocks → j * sb.blockSize + sb.blockSize ≤ sb.gdtSize) ↔
      sb.gdtBlocks * sb.blockSize ≤ sb.gdtSize := by
  constructor
  · intro h
    rcases Nat.eq_zero_or_pos sb.gdtBlocks with h0 | hpos
    · rw [h0, Nat.zero_mul]
      exact Nat.zero_le _
    · have hlast := h (sb.gdtBlocks - 1) (by omega)
      rwa [← Nat.succ_mul, Nat.succ_eq_add_one, Nat.sub_add_cancel hpos] at hlast
  · intro h j hj
    have hle : (j + 1) * sb.blockSize ≤ sb.gdtBlocks * sb.blockSize := Nat.mul_le_mul_right _ hj
    rw [Nat.add_mul, Nat.one_mul] at hle
    omega

/-- With room for the table there is an outcome. -/
theorem run_mountSuperblockChecked_room (drive : Drive) (e : Env) (s : Fs)
    (hsize : sb.logBlockSize ≤ 6)
    (hgroups : 0 < sb.blocksPerGroup) (hroom : e.outOfMemory (.store 0 :: e.path) = false →
      sb.gdtBlocks * sb.blockSize ≤ sb.gdtSize) :
    ∃ r, (mountSuperblockChecked drive sb).run e s = some (r, s) ∧
      (∀ fs, r = some fs → (e.outOfMemory (.store 0 :: e.path) = false ∧
        e.outOfMemory (.store 1 :: e.path) = false) ∧
        ∃ table, fs = ⟨sb, table, sb.blockSize, sb.numBlockGroups, drive⟩) ∧
      (e.Reliable → e.HasMemory → r ≠ none) := by
  rw [run_mountSuperblockChecked drive e s hsize hgroups]
  by_cases hfirst : e.outOfMemory (.store 0 :: e.path) = true
  · rw [if_pos hfirst]
    exact ⟨none, rfl, nofun, fun _ he => absurd hfirst (by rw [he]; decide)⟩
  · have hfirst' := Bool.eq_false_iff.mpr hfirst
    have hblocks : ∀ j, j < 0 + sb.gdtBlocks → j * sb.blockSize + sb.blockSize ≤ sb.gdtSize :=
      fun j hj => sb.room_iff.mpr (hroom hfirst') j (by omega)
    obtain ⟨table, hload, hok⟩ := run_loadGroupsChecked (e := e) (s := s)
      ⟨sb, e.junk (.store 0 :: e.path), sb.blockSize, sb.numBlockGroups, drive⟩
      (u32 (sb.firstDataBlock + 1)) (e.junk (.store 0 :: e.path)) hblocks
    rw [if_neg hfirst, hload, Option.bind_some]
    cases table with
    | none => exact ⟨none, rfl, nofun, fun he _ => absurd rfl (hok he)⟩
    | some table =>
        dsimp only
        split
        · next hsecond => exact ⟨none, rfl, nofun, fun _ he => absurd hsecond (by rw [he]; decide)⟩
        · next hsecond =>
            refine ⟨_, rfl, fun fs hfs => ⟨⟨hfirst', Bool.eq_false_iff.mpr hsecond⟩, table, ?_⟩,
              fun _ _ => nofun⟩
            exact (Option.some.inj hfs).symm

/-- Of the calls of `malloc`, the second one fails. -/
def failsSecond : List Fat32.Label → Bool
  | [.store 1] => true
  | _ => false

/-- Where a superblock is mounted safely, its fields are as they have to be. -/
theorem MountsSafely.safeFields (h : MountsSafely fits drive b)
    (hmagic : (Superblock.ofBytes b).magic = 0xEF53) : SafeFields fits (Superblock.ofBytes b) := by
  have hper : (Superblock.ofBytes b).inodesPerGroup < 2 ^ 32 := load32_lt _ _
  generalize hsb : Superblock.ofBytes b = sb at *
  have hmount : ∀ e : Env, e.Reliable → Serves fits sb e → ∃ s r s',
      (mountSuperblockChecked drive sb).run e s = some (r, s') ∧
        ∀ fs, r = some fs → ∀ (e' : Env) (s'' : Fs) (n : Nat), n < 2 ^ 32 →
          (ext2ReadInodeChecked fs n).run e' s'' ≠ none := by
    intro e he hserves
    have hs : HasSuperblock (onEveryDrive fun lba =>
        if lba = 2 then Sector.ofBytes b 0 else Sector.ofBytes b 512) drive b := ⟨rfl, rfl⟩
    obtain ⟨r, s', hrun, hread⟩ := h e _ (by rw [hsb]; exact hserves) hs
    rcases run_ext2InitChecked e hs (by rw [hsb]; exact hmagic) with ⟨-, hno⟩ | hsame
    · exact absurd he hno
    · rw [hsame, hsb] at hrun
      exact ⟨_, r, s', hrun, hread⟩
  have hnoMemory : Serves fits sb { Fat32.quietEnv with outOfMemory := fun _ => true } :=
    ⟨fun h => absurd h (by decide), fun h => absurd h (by decide)⟩
  obtain ⟨s, r, s', hrun, -⟩ := hmount _ (fun _ => rfl) hnoMemory
  have hshift : sb.logBlockSize < 32 := by
    by_contra hlarge
    unfold mountSuperblockChecked at hrun
    rw [Prog.run_check_bind, if_neg hlarge] at hrun
    cases hrun
  have hgroups : sb.logBlockSize ≤ 6 → 0 < sb.blocksPerGroup := by
    intro hsize
    by_contra hzero
    unfold mountSuperblockChecked at hrun
    rw [Prog.run_check_bind, if_pos hshift, Prog.run_ite,
      if_neg ((Superblock.accepted_iff hshift).mpr hsize), Prog.run_ite, if_pos (by omega)] at hrun
    cases hrun
  have htable : sb.logBlockSize ≤ 6 → fits sb.gdtSize → sb.gdtBlocks * sb.blockSize ≤ sb.gdtSize := by
    intro hsize hfits
    -- the second call of `malloc` may fail
    have hserves : Serves fits sb
        { Fat32.quietEnv with outOfMemory := failsSecond } :=
      ⟨fun _ => hfits, fun h => absurd h (by decide)⟩
    obtain ⟨s, r, s', hrun, -⟩ := hmount _ (fun _ => rfl) hserves
    rw [run_mountSuperblockChecked drive _ s hsize (hgroups hsize), if_neg (by decide)] at hrun
    obtain ⟨r', hload, -⟩ := Option.bind_eq_some_iff.mp hrun
    refine sb.room_iff.mp fun j hj => ?_
    exact room_of_run_loadGroupsChecked (fun _ => rfl) hload (Nat.zero_le j) (by rwa [Nat.zero_add])
  refine ⟨hshift, hgroups, htable, fun hsize hfits hfits' => ?_⟩
  obtain ⟨s, r, s', hrun, hread⟩ := hmount _ Fat32.quietEnv_reliable ⟨fun _ => hfits, fun _ => hfits'⟩
  obtain ⟨r', hrun', hmounted, hok⟩ := run_mountSuperblockChecked_room drive Fat32.quietEnv s hsize
    (hgroups hsize) fun _ => htable hsize hfits
  rw [hrun] at hrun'
  obtain rfl : r = r' := congrArg Prod.fst (Option.some.inj hrun')
  obtain ⟨fs, rfl⟩ := Option.ne_none_iff_exists'.mp
    (hok Fat32.quietEnv_reliable Fat32.quietEnv_hasMemory)
  obtain ⟨-, table, rfl⟩ := hmounted fs rfl
  exact (readsInodes_iff (Superblock.acceptedSize hsize) hper).mp (hread _ rfl)

/-- **When a superblock is mounted safely.** -/
theorem mountsSafely_iff (fits : Nat → Prop) (drive : Drive)
    (hmagic : (Superblock.ofBytes b).magic = 0xEF53) :
    MountsSafely fits drive b ↔ SafeFields fits (Superblock.ofBytes b) := by
  refine ⟨fun h => h.safeFields hmagic, fun hfields e s hserves hs => ?_⟩
  have hper : (Superblock.ofBytes b).inodesPerGroup < 2 ^ 32 := load32_lt _ _
  generalize hsb : Superblock.ofBytes b = sb at *
  rcases run_ext2InitChecked e hs (by rw [hsb]; exact hmagic) with ⟨hrun, -⟩ | hrun
  · exact ⟨none, s, hrun, nofun⟩
  · rw [hsb] at hrun
    rw [hrun]
    by_cases hsize : sb.logBlockSize ≤ 6
    · obtain ⟨r, hrun', hmounted, -⟩ := run_mountSuperblockChecked_room drive e s hsize
        (hfields.groups hsize) fun hfirst => hfields.table hsize (hserves.1 hfirst)
      refine ⟨r, s, hrun', fun fs hfs => ?_⟩
      obtain ⟨⟨hfirst, hsecond⟩, table, rfl⟩ := hmounted fs hfs
      exact (readsInodes_iff (Superblock.acceptedSize hsize) hper).mpr
        (hfields.inodes hsize (hserves.1 hfirst) (hserves.2 hsecond))
    · unfold mountSuperblockChecked
      rw [Prog.run_check_bind, if_pos hfields.shift, Prog.run_ite,
        if_pos (not_imp_comm.mp (Superblock.accepted_iff hfields.shift).mp hsize)]
      exact ⟨none, s, rfl, nofun⟩

end safety

/-! ## Two superblocks -/

/-- A superblock of a volume with `n` blocks of 1 KB in groups of 8192, and inodes of 128 bytes. -/
def superblockOf (n : Nat) : Bytes :=
  store16 (store16 (store32 (store32 (store32 (store32 (fun _ => 0) 4 n) 20 1) 32 8192) 40 2048)
    56 0xEF53)
    88 128

/-- With 32 groups the table fills a block. -/
theorem mountsSafely_iff_full : MountsSafely (· ≤ 65536) ⟨0x1F0, true⟩ (superblockOf 262144) := by
  refine (mountsSafely_iff (· ≤ 65536) ⟨0x1F0, true⟩ (by decide)).mpr
    ⟨by decide, fun _ => by decide, fun _ _ => by decide, fun _ _ _ => ⟨by decide, fun _ i _ => ?_⟩⟩
  exact Records.inside (show 128 ∣ 1024 by decide) (by decide) i

/-- With one group it is 32 bytes long, and 1024 are read. -/
theorem not_mountsSafely : (Superblock.ofBytes (superblockOf 1440)).magic = 0xEF53 ∧
    ¬ MountsSafely (· ≤ 65536) ⟨0x1F0, true⟩ (superblockOf 1440) := by
  refine ⟨by decide, fun h => ?_⟩
  have htable := (h.safeFields (by decide)).table (by decide) (by decide)
  exact absurd htable (by decide)

end MicroKernel.Ext2
