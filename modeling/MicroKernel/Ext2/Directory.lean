import MicroKernel.Ext2.FileData
import MicroKernel.Lib.Checked

set_option autoImplicit false

/-! # What `ext2_read_dir` touches

`ext2_read_dir` walks the records of each block of a directory from one to the next, as `rec_len`
says. The functions appear here once more with a check in front of every access: to the bytes of the
block buffer, and to the entries that are written. `run_ext2ReadDirChecked` says what the walk copies
and when all that it touches is allowed, and `Bounds.directory_iff` what that means for the records.
-/

namespace MicroKernel.Ext2

open MicroKernel.Lib Bytes
open MicroKernel.Fat32 (Env Fs Io within uninitialised run_within run_uninitialised)
open Prog (Below)

/-! ## Accesses -/

/-- Bytes of the block buffer that are read, or bytes of `entries[i]` that are written. -/
inductive Access where
  | read (a n : Nat)
  | write (i a n : Nat)

/-- What is read to see whether there is a record at `x`. -/
def headAccesses (b : Bytes) (x : Nat) : List Access :=
  .read x 4 :: if entryInode b x = 0 then [] else [.read (x + 4) 2]

/-- What is touched when the record at `x` is copied to `entries[count]`. -/
def copyAccesses (b : Bytes) (x count : Nat) : List Access :=
  [.read x 8, .read (x + 8) (nameLen b x), .write count 0 8, .write count 8 (nameLen b x),
    .write count (8 + nameLen b x) 1]

section checked

variable (allowed : Access → Prop) [DecidablePred allowed] (fs : Ext2Fs) (inode : Bytes)
  (maxEntries : Nat)

/-- `readDirRecords` with the checks. -/
def readDirRecordsChecked (block : Bytes) : Nat → Nat → Nat → Bytes → Nat → Io (Bytes × Nat)
  | 0, _, _, _, _ => Prog.diverge
  | k + 1, blockOffset, offset, entries, count =>
      if blockOffset < fs.blockSize ∧ offset < iSize inode then do
        Prog.check (∀ a ∈ headAccesses block blockOffset, allowed a)
        if entryInode block blockOffset = 0 ∨ recLen block blockOffset = 0 then
          return (entries, count)
        else if fs.blockSize < recLen block blockOffset ∨ recLen block blockOffset < 8 then
          return (entries, count)
        else if count < maxEntries then
          Prog.check (∀ a ∈ copyAccesses block blockOffset count, allowed a)
          readDirRecordsChecked block k (u32 (blockOffset + recLen block blockOffset))
            (u32 (offset + recLen block blockOffset)) (copyEntry entries count block blockOffset)
            (count + 1)
        else
          readDirRecordsChecked block k (u32 (blockOffset + recLen block blockOffset))
            (u32 (offset + recLen block blockOffset)) entries count
      else return (entries, count)

/-- `readDirBlocks` with the checks. -/
def readDirBlocksChecked : Nat → Nat → Bytes → Nat → Io (Bool × Bytes × Nat)
  | 0, _, _, _ => Prog.diverge
  | k + 1, offset, entries, count => do
      if offset < iSize inode ∧ count < maxEntries then
        let blockIndex := offset / fs.blockSize
        if 12 ≤ blockIndex then return (true, entries, count)
        let blockNum := iBlock inode blockIndex
        if blockNum = 0 then return (true, entries, count)
        let block ← within (.cluster blockIndex) (uninitialised (.load 0))
        let (ok, block) ← within (.cluster blockIndex) (ext2ReadBlock fs blockNum block 0)
        if !ok then return (false, entries, count)
        let (entries, count) ←
          readDirRecordsChecked allowed fs inode maxEntries block steps 0 offset entries count
        readDirBlocksChecked k (u32 ((blockIndex + 1) * fs.blockSize)) entries count
      else return (true, entries, count)

/-- `ext2ReadDir` with the checks. -/
def ext2ReadDirChecked (inodeNum : Nat) (entries : Bytes) (count : Nat) :
    Io (Bool × Bytes × Nat) := do
  match ← within .find (ext2ReadInode fs inodeNum) with
  | none => return (false, entries, count)
  | some inode =>
      if iMode inode &&& 0x4000 ≠ 0x4000 then return (false, entries, count)
      readDirBlocksChecked allowed fs inode maxEntries steps 0 entries 0

theorem readDirRecordsChecked_below (block : Bytes) (k blockOffset offset : Nat) (entries : Bytes)
    (count : Nat) :
    Below (readDirRecordsChecked allowed fs inode maxEntries block k blockOffset offset entries count)
      (readDirRecords fs inode maxEntries block k blockOffset offset entries count) := by
  induction k generalizing blockOffset offset entries count with
  | zero => exact Below.refl _
  | succ k ih =>
      rw [readDirRecordsChecked, readDirRecords]
      apply Below.ite _ (Below.refl _)
      apply Below.check_bind
      apply Below.ite (Below.refl _)
      apply Below.ite (Below.refl _)
      apply Below.ite
      · apply Below.check_bind
        exact ih _ _ _ _
      · exact ih _ _ _ _

theorem readDirBlocksChecked_below (k offset : Nat) (entries : Bytes) (count : Nat) :
    Below (readDirBlocksChecked allowed fs inode maxEntries k offset entries count)
      (readDirBlocks fs inode maxEntries k offset entries count) := by
  induction k generalizing offset entries count with
  | zero => exact Below.refl _
  | succ k ih =>
      rw [readDirBlocksChecked, readDirBlocks]
      apply Below.ite _ (Below.refl _)
      apply Below.ite (Below.refl _)
      apply Below.ite (Below.refl _)
      apply Below.bind (Below.refl _)
      intro block
      apply Below.bind (Below.refl _)
      intro r
      apply Below.ite (Below.refl _)
      apply Below.bind (readDirRecordsChecked_below _ _ _ _ _ _ _ _ _ _)
      intro r
      exact ih _ _ _

/-- A call that has an outcome with the checks has the same without. -/
theorem ext2ReadDirChecked_below (inodeNum : Nat) (entries : Bytes) (count : Nat) :
    Below (ext2ReadDirChecked allowed fs maxEntries inodeNum entries count)
      (ext2ReadDir fs inodeNum entries maxEntries count) := by
  apply Below.bind (Below.refl _)
  intro r
  cases r with
  | none => exact Below.refl _
  | some inode =>
      apply Below.ite (Below.refl _)
      exact readDirBlocksChecked_below _ _ _ _ _ _ _ _

end checked

/-! ## Records -/

namespace Ext2Fs

variable (fs : Ext2Fs)

/-- There is a record at `x`: in use, and with a length that the driver accepts. -/
def IsRecord (b : Bytes) (x : Nat) : Prop :=
  entryInode b x ≠ 0 ∧ 8 ≤ recLen b x ∧ recLen b x ≤ fs.blockSize

instance (b : Bytes) (x : Nat) : Decidable (fs.IsRecord b x) :=
  inferInstanceAs (Decidable (_ ∧ _ ∧ _))

/-- The records from `x` on that begin in front of `n`. -/
def recordsFrom (b : Bytes) (n x : Nat) : List Nat :=
  if x < n ∧ fs.IsRecord b x then x :: recordsFrom b n (x + recLen b x) else []
termination_by n - x
decreasing_by
  have h : x < n ∧ fs.IsRecord b x := by assumption
  have := h.2.2.1
  omega

/-- Where the last record ends. -/
def endFrom (b : Bytes) (n x : Nat) : Nat :=
  if x < n ∧ fs.IsRecord b x then endFrom b n (x + recLen b x) else x
termination_by n - x
decreasing_by
  have h : x < n ∧ fs.IsRecord b x := by assumption
  have := h.2.2.1
  omega

/-- What the walk over these records touches. -/
def accessesFrom (b : Bytes) (n maxEntries x count : Nat) : List Access :=
  if x < n then
    headAccesses b x ++
      if fs.IsRecord b x then
        if count < maxEntries then
          copyAccesses b x count ++ accessesFrom b n maxEntries (x + recLen b x) (count + 1)
        else accessesFrom b n maxEntries (x + recLen b x) count
      else []
  else []
termination_by n - x
decreasing_by
  all_goals
    have h : fs.IsRecord b x := by assumption
    have := h.2.1
    omega

/-- Block `k` of a directory, as the driver reads it. -/
def dirBlock (d : Disk) (inode : Bytes) (k : Nat) : Bytes := fs.addressedBytes d (iBlock inode k)

/-- Where the part of block `k` ends that belongs to the directory. -/
def dirEnd (inode : Bytes) (k : Nat) : Nat := min fs.blockSize (iSize inode - k * fs.blockSize)

/-- The records of block `k`. -/
def dirRecords (d : Disk) (inode : Bytes) (k : Nat) : List Nat :=
  fs.recordsFrom (fs.dirBlock d inode k) (fs.dirEnd inode k) 0

/-- The records of `m` blocks from block `k` on. -/
def blockRecords (d : Disk) (inode : Bytes) : Nat → Nat → List (Bytes × Nat)
  | 0, _ => []
  | m + 1, k =>
      if k * fs.blockSize < iSize inode ∧ iBlock inode k ≠ 0 then
        (fs.dirRecords d inode k).map (fs.dirBlock d inode k, ·) ++ blockRecords d inode m (k + 1)
      else []

/-- What the walk over these blocks touches. -/
def blockAccesses (d : Disk) (inode : Bytes) (maxEntries : Nat) : Nat → Nat → Nat → List Access
  | 0, _, _ => []
  | m + 1, k, count =>
      if k * fs.blockSize < iSize inode ∧ count < maxEntries ∧ iBlock inode k ≠ 0 then
        fs.accessesFrom (fs.dirBlock d inode k) (fs.dirEnd inode k) maxEntries 0 count ++
          blockAccesses d inode maxEntries m (k + 1)
            (min maxEntries (count + (fs.dirRecords d inode k).length))
      else []

/-- The records from `x` on have their fields in the block, and there is room for those that are
copied. -/
structure RecordsFit (b : Bytes) (n maxEntries : Nat) (room : Nat → Nat → Prop) (x count : Nat) :
    Prop where
  head : ∀ y ∈ fs.recordsFrom b n x, y + 6 ≤ fs.blockSize
  name : ∀ i y, (fs.recordsFrom b n x)[i]? = some y → count + i < maxEntries →
    y + 8 + nameLen b y ≤ fs.blockSize ∧ room (count + i) (nameLen b y)
  last : fs.endFrom b n x < n → fs.endFrom b n x + 4 ≤ fs.blockSize ∧
    (entryInode b (fs.endFrom b n x) ≠ 0 → fs.endFrom b n x + 6 ≤ fs.blockSize)

/-- How many records there are in front of block `k`. -/
def recordsBefore (d : Disk) (inode : Bytes) (k : Nat) : Nat :=
  ((List.range k).map fun j => (fs.dirRecords d inode j).length).sum

/-- The walk comes to block `k`. -/
def IsWalked (d : Disk) (inode : Bytes) (maxEntries k : Nat) : Prop :=
  k < 12 ∧ k * fs.blockSize < iSize inode ∧ (∀ j, j ≤ k → iBlock inode j ≠ 0) ∧
    fs.recordsBefore d inode k < maxEntries

end Ext2Fs

/-- The records, each with its block, are copied as long as there is room. -/
def copyAll (maxEntries : Nat) : List (Bytes × Nat) → Bytes → Nat → Bytes × Nat
  | [], entries, count => (entries, count)
  | r :: rs, entries, count =>
      if count < maxEntries then copyAll maxEntries rs (copyEntry entries count r.1 r.2) (count + 1)
      else copyAll maxEntries rs entries count

section copyAll

variable {maxEntries count : Nat}

theorem copyAll_count (rs : List (Bytes × Nat)) (entries : Bytes) (h : count ≤ maxEntries) :
    (copyAll maxEntries rs entries count).2 = min maxEntries (count + rs.length) := by
  induction rs generalizing entries count with
  | nil =>
      rw [copyAll, List.length_nil]
      omega
  | cons r rs ih =>
      rw [copyAll, List.length_cons]
      split
      · rw [ih _ (by omega)]
        omega
      · rw [ih _ h]
        omega

theorem copyAll_append (rs rs' : List (Bytes × Nat)) (entries : Bytes) (count : Nat) :
    copyAll maxEntries (rs ++ rs') entries count
      = copyAll maxEntries rs' (copyAll maxEntries rs entries count).1
          (copyAll maxEntries rs entries count).2 := by
  induction rs generalizing entries count with
  | nil => rfl
  | cons r rs ih =>
      rw [List.cons_append, copyAll, copyAll]
      split
      · exact ih _ _
      · exact ih _ _

/-- Without room nothing is copied. -/
theorem copyAll_full (rs : List (Bytes × Nat)) (entries : Bytes) (h : maxEntries ≤ count) :
    copyAll maxEntries rs entries count = (entries, count) := by
  induction rs with
  | nil => rfl
  | cons r rs ih => rw [copyAll, if_neg (by omega), ih]

end copyAll

/-! ## Where the accesses are -/

/-- An access that is allowed: reads are inside the block buffer, and an entry is written where there
is room for its name. -/
structure Bounds (fs : Ext2Fs) (maxEntries : Nat) (room : Nat → Nat → Prop)
    (allowed : Access → Prop) :
    Prop where
  read : ∀ a n, allowed (.read a n) ↔ a + n ≤ fs.blockSize
  write : ∀ i n, i < maxEntries →
    (allowed (.write i 0 8) ∧ allowed (.write i 8 n) ∧ allowed (.write i (8 + n) 1) ↔ room i n)

section bounds

variable {fs : Ext2Fs} {allowed : Access → Prop} {room : Nat → Nat → Prop} {maxEntries : Nat}
  {b : Bytes} {n x count : Nat}

theorem Bounds.head (h : Bounds fs maxEntries room allowed) :
    (∀ a ∈ headAccesses b x, allowed a) ↔
      x + 4 ≤ fs.blockSize ∧ (entryInode b x ≠ 0 → x + 6 ≤ fs.blockSize) := by
  unfold headAccesses
  rw [List.forall_mem_cons, h.read]
  refine and_congr_right fun _ => ?_
  split
  · next h0 => exact iff_of_true (List.forall_mem_nil _) fun hne => absurd h0 hne
  · next h0 =>
      rw [List.forall_mem_singleton, h.read]
      exact ⟨fun hle _ => hle, fun hle => hle h0⟩

theorem Bounds.copy (h : Bounds fs maxEntries room allowed) (hcount : count < maxEntries) :
    (∀ a ∈ copyAccesses b x count, allowed a) ↔
      x + 8 + nameLen b x ≤ fs.blockSize ∧ room count (nameLen b x) := by
  have hwrite := h.write count (nameLen b x) hcount
  have hhead := h.read x 8
  have hname := h.read (x + 8) (nameLen b x)
  unfold copyAccesses
  simp only [List.forall_mem_cons, List.not_mem_nil, IsEmpty.forall_iff, implies_true, and_true]
  rw [hwrite, hhead, hname, ← and_assoc]
  exact and_congr_left fun _ => by omega

/-- A record, and those behind it. -/
theorem Ext2Fs.RecordsFit.cons_iff (hr : x < n ∧ fs.IsRecord b x) :
    fs.RecordsFit b n maxEntries room x count ↔ x + 6 ≤ fs.blockSize ∧
      (count < maxEntries → x + 8 + nameLen b x ≤ fs.blockSize ∧ room count (nameLen b x)) ∧
      fs.RecordsFit b n maxEntries room (x + recLen b x) (count + 1) := by
  have hrecords : fs.recordsFrom b n x = x :: fs.recordsFrom b n (x + recLen b x) := by
    rw [recordsFrom, if_pos hr]
  have hend : fs.endFrom b n x = fs.endFrom b n (x + recLen b x) := by
    rw [endFrom, if_pos hr]
  constructor
  · rintro ⟨hhead, hname, hlast⟩
    rw [hrecords] at hhead hname
    rw [hend] at hlast
    refine ⟨hhead x (List.mem_cons_self ..), hname 0 x rfl, fun y hy =>
      hhead y (List.mem_cons_of_mem _ hy), fun i y hy hi => ?_, hlast⟩
    have hcount : count + 1 + i = count + (i + 1) := by omega
    rw [hcount] at hi ⊢
    exact hname (i + 1) y hy hi
  · rintro ⟨hhead, hname, hrest⟩
    refine ⟨fun y hy => ?_, fun i y hy hi => ?_, by rw [hend]; exact hrest.last⟩
    · rw [hrecords] at hy
      rcases List.mem_cons.mp hy with rfl | hy
      · exact hhead
      · exact hrest.head y hy
    · rw [hrecords] at hy
      cases i with
      | zero =>
          obtain rfl : x = y := by simpa using hy
          exact hname hi
      | succ i =>
          have hcount : count + (i + 1) = count + 1 + i := by omega
          rw [hcount] at hi ⊢
          exact hrest.name i y hy hi

/-- No record at `x`. -/
theorem Ext2Fs.RecordsFit.nil_iff (hr : ¬ (x < n ∧ fs.IsRecord b x)) :
    fs.RecordsFit b n maxEntries room x count ↔
      (x < n → x + 4 ≤ fs.blockSize ∧ (entryInode b x ≠ 0 → x + 6 ≤ fs.blockSize)) := by
  have hrecords : fs.recordsFrom b n x = [] := by rw [recordsFrom, if_neg hr]
  have hend : fs.endFrom b n x = x := by rw [endFrom, if_neg hr]
  constructor
  · rintro ⟨-, -, hlast⟩
    rwa [hend] at hlast
  · intro hlast
    refine ⟨fun y hy => ?_, fun i y hy => ?_, by rwa [hend]⟩
    · rw [hrecords] at hy
      cases hy
    · rw [hrecords] at hy
      cases hy

/-- Without room it does not matter how many entries there are. -/
theorem Ext2Fs.RecordsFit.full_iff (h : maxEntries ≤ count) :
    fs.RecordsFit b n maxEntries room x (count + 1) ↔ fs.RecordsFit b n maxEntries room x count :=
  ⟨fun hfit => ⟨hfit.head, fun i y _ hi => by omega, hfit.last⟩,
    fun hfit => ⟨hfit.head, fun i y _ hi => by omega, hfit.last⟩⟩

/-- **Where the walk over a block is allowed.** -/
theorem Bounds.accessesFrom_iff (h : Bounds fs maxEntries room allowed) :
    (∀ a ∈ fs.accessesFrom b n maxEntries x count, allowed a) ↔
      fs.RecordsFit b n maxEntries room x count := by
  induction x using Ext2Fs.recordsFrom.induct fs b n generalizing count with
  | case1 x hr ih =>
      rw [Ext2Fs.accessesFrom, if_pos hr.1, if_pos hr.2, List.forall_mem_append, h.head,
        Ext2Fs.RecordsFit.cons_iff hr]
      by_cases hcount : count < maxEntries
      · rw [if_pos hcount, List.forall_mem_append, h.copy hcount, ih]
        constructor
        · rintro ⟨hhead, hcopy, hrest⟩
          exact ⟨hhead.2 hr.2.1, fun _ => hcopy, hrest⟩
        · rintro ⟨hhead, hcopy, hrest⟩
          exact ⟨⟨by omega, fun _ => hhead⟩, hcopy hcount, hrest⟩
      · rw [if_neg hcount, ih, Ext2Fs.RecordsFit.full_iff (Nat.not_lt.mp hcount)]
        constructor
        · rintro ⟨hhead, hrest⟩
          exact ⟨hhead.2 hr.2.1, fun hlt => absurd hlt hcount, hrest⟩
        · rintro ⟨hhead, -, hrest⟩
          exact ⟨⟨by omega, fun _ => hhead⟩, hrest⟩
  | case2 x hr =>
      rw [Ext2Fs.accessesFrom, Ext2Fs.RecordsFit.nil_iff hr]
      by_cases hx : x < n
      · have hnone : ¬ fs.IsRecord b x := fun h => hr ⟨hx, h⟩
        rw [if_pos hx, if_neg hnone, List.append_nil, h.head]
        exact ⟨fun hhead _ => hhead, fun hhead => hhead hx⟩
      · rw [if_neg hx]
        exact iff_of_true (List.forall_mem_nil _) fun hlt => absurd hlt hx

variable {d : Disk} {inode : Bytes}

theorem Ext2Fs.recordsBefore_succ (fs : Ext2Fs) (d : Disk) (inode : Bytes) (k : Nat) :
    fs.recordsBefore d inode (k + 1)
      = fs.recordsBefore d inode k + (fs.dirRecords d inode k).length := by
  unfold recordsBefore
  rw [List.range_succ, List.map_append, List.sum_append, List.map_singleton, List.sum_singleton]

theorem Ext2Fs.recordsBefore_mono (fs : Ext2Fs) (d : Disk) (inode : Bytes) :
    Monotone (fs.recordsBefore d inode) := by
  apply monotone_nat_of_le_succ
  intro k
  rw [recordsBefore_succ]
  exact Nat.le_add_right _ _

/-- **Where the walk over the blocks is allowed.** -/
theorem Bounds.blockAccesses_iff (h : Bounds fs maxEntries room allowed)
    {m k : Nat} (hm : k + m = 12) (hk : ∀ j, j < k → iBlock inode j ≠ 0) :
    (∀ a ∈ fs.blockAccesses d inode maxEntries m k (min maxEntries (fs.recordsBefore d inode k)),
        allowed a) ↔
      ∀ j, k ≤ j → fs.IsWalked d inode maxEntries j → fs.RecordsFit (fs.dirBlock d inode j)
        (fs.dirEnd inode j) maxEntries room 0 (fs.recordsBefore d inode j) := by
  induction m generalizing k with
  | zero =>
      refine iff_of_true (List.forall_mem_nil _) fun j hj hwalked => ?_
      have hlt := hwalked.1
      omega
  | succ m ih =>
      rw [Ext2Fs.blockAccesses]
      by_cases hin : k * fs.blockSize < iSize inode ∧
          min maxEntries (fs.recordsBefore d inode k) < maxEntries ∧ iBlock inode k ≠ 0
      · have hmin : min maxEntries (fs.recordsBefore d inode k) = fs.recordsBefore d inode k := by
          omega
        have hk' : ∀ j, j < k + 1 → iBlock inode j ≠ 0 := by
          intro j hj
          rcases Nat.lt_succ_iff_lt_or_eq.mp hj with hj | rfl
          · exact hk j hj
          · exact hin.2.2
        have hwalked : fs.IsWalked d inode maxEntries k :=
          ⟨by omega, hin.1, fun j hj => hk' j (by omega), by omega⟩
        have hrest := ih (k := k + 1) (by omega) hk'
        rw [Ext2Fs.recordsBefore_succ] at hrest
        rw [if_pos hin, hmin, List.forall_mem_append, h.accessesFrom_iff, hrest]
        constructor
        · rintro ⟨hfit, hrest⟩ j hj hwalked
          rcases Nat.eq_or_lt_of_le hj with rfl | hj
          · exact hfit
          · exact hrest j hj hwalked
        · exact fun hall => ⟨hall k (Nat.le_refl k) hwalked, fun j hj => hall j (by omega)⟩
      · -- the walk does not come here, nor any farther
        rw [if_neg hin]
        refine iff_of_true (List.forall_mem_nil _) fun j hj hwalked => absurd ?_ hin
        obtain ⟨-, hsize, hblocks, hbefore⟩ := hwalked
        have hmono := fs.recordsBefore_mono d inode hj
        exact ⟨Nat.lt_of_le_of_lt (Nat.mul_le_mul_right _ hj) hsize, by omega, hblocks k hj⟩

/-- The walk over a directory. -/
theorem Bounds.directory_iff (h : Bounds fs maxEntries room allowed) :
    (∀ a ∈ fs.blockAccesses d inode maxEntries 12 0 0, allowed a) ↔
      ∀ k, fs.IsWalked d inode maxEntries k → fs.RecordsFit (fs.dirBlock d inode k)
        (fs.dirEnd inode k) maxEntries room 0 (fs.recordsBefore d inode k) := by
  have hall : (∀ a ∈ fs.blockAccesses d inode maxEntries 12 0 (min maxEntries
      (fs.recordsBefore d inode 0)), allowed a) ↔ _ :=
    h.blockAccesses_iff (Nat.zero_add 12) fun j hj => absurd hj (Nat.not_lt_zero j)
  have hzero : min maxEntries (fs.recordsBefore d inode 0) = 0 := Nat.min_zero maxEntries
  rw [hzero] at hall
  exact hall.trans ⟨fun h k => h k (Nat.zero_le k), fun h k _ => h k⟩

end bounds

/-! ## The walk over a block -/

section walk

variable {fs : Ext2Fs} {block b : Bytes} {x count : Nat}

theorem entryInode_congr (h : ∀ i, i < fs.blockSize → block i = b i) (hx : x + 4 ≤ fs.blockSize) :
    entryInode block x = entryInode b x :=
  load32_congr fun i hi => h _ (by omega)

theorem recLen_congr (h : ∀ i, i < fs.blockSize → block i = b i) (hx : x + 6 ≤ fs.blockSize) :
    recLen block x = recLen b x := by
  unfold recLen load16
  rw [h _ (by omega), h _ (by omega)]

theorem nameLen_congr (h : ∀ i, i < fs.blockSize → block i = b i) (hx : x + 8 ≤ fs.blockSize) :
    nameLen block x = nameLen b x := by
  unfold nameLen
  rw [h _ (by omega)]

theorem nameLen_le (b : Bytes) (x : Nat) : nameLen b x ≤ 255 := by
  have := (b (x + 6)).toNat_lt
  unfold nameLen
  omega

/-- An entry with its fields and its name, and the zero behind the name. -/
theorem copyEntry_eq (entries : Bytes) (count : Nat) (b : Bytes) (x : Nat) :
    copyEntry entries count b x
      = store8 (copy (store8 (store8 (store16 (store32 entries (263 * count) (entryInode b x))
        (263 * count + 4) (recLen b x)) (263 * count + 6) (b (x + 6))) (263 * count + 7) (b (x + 7)))
        (263 * count + 8) b (x + 8) (nameLen b x)) (263 * count + 8 + nameLen b x) 0 := by
  have hle := nameLen_le b x
  unfold copyEntry
  dsimp only
  rw [if_neg (by omega), Libc.memcpy_eq _ _ _ _ (by omega)]
  rfl

theorem copyEntry_congr (h : ∀ i, i < fs.blockSize → block i = b i)
    (hx : x + 8 + nameLen b x ≤ fs.blockSize) (entries : Bytes) (count : Nat) :
    copyEntry entries count block x = copyEntry entries count b x := by
  have hname : copy (store8 (store8 (store16 (store32 entries (263 * count) (entryInode b x))
        (263 * count + 4) (recLen b x)) (263 * count + 6) (b (x + 6))) (263 * count + 7) (b (x + 7)))
        (263 * count + 8) block (x + 8) (nameLen b x)
      = copy (store8 (store8 (store16 (store32 entries (263 * count) (entryInode b x))
        (263 * count + 4) (recLen b x)) (263 * count + 6) (b (x + 6))) (263 * count + 7) (b (x + 7)))
        (263 * count + 8) b (x + 8) (nameLen b x) := by
    funext y
    unfold copy
    split
    · exact h _ (by omega)
    · rfl
  rw [copyEntry_eq, copyEntry_eq, entryInode_congr h (by omega), recLen_congr h (by omega),
    nameLen_congr h (by omega), h (x + 6) (by omega), h (x + 7) (by omega), hname]

variable {allowed : Access → Prop}

/-- The buffer and the block have the same bytes where they may be read. -/
theorem headAccesses_congr (hread : ∀ a n, allowed (.read a n) → a + n ≤ fs.blockSize)
    (h : ∀ i, i < fs.blockSize → block i = b i) :
    (∀ a ∈ headAccesses block x, allowed a) ↔ ∀ a ∈ headAccesses b x, allowed a := by
  unfold headAccesses
  rw [List.forall_mem_cons, List.forall_mem_cons]
  refine and_congr_right fun hhead => ?_
  rw [entryInode_congr h (hread _ _ hhead)]

theorem copyAccesses_congr (hread : ∀ a n, allowed (.read a n) → a + n ≤ fs.blockSize)
    (h : ∀ i, i < fs.blockSize → block i = b i) :
    (∀ a ∈ copyAccesses block x count, allowed a) ↔ ∀ a ∈ copyAccesses b x count, allowed a := by
  unfold copyAccesses
  simp only [List.forall_mem_cons]
  refine and_congr_right fun hhead => ?_
  rw [nameLen_congr h (hread _ _ hhead)]

theorem isRecord_congr (hread : ∀ a n, allowed (.read a n) → a + n ≤ fs.blockSize)
    (h : ∀ i, i < fs.blockSize → block i = b i) (hhead : ∀ a ∈ headAccesses b x, allowed a) :
    entryInode block x = entryInode b x ∧ (entryInode b x ≠ 0 → recLen block x = recLen b x) := by
  unfold headAccesses at hhead
  refine ⟨entryInode_congr h (hread _ _ (hhead _ (List.mem_cons_self ..))), fun h0 => ?_⟩
  rw [if_neg h0] at hhead
  exact recLen_congr h (hread (x + 4) 2 (hhead _ (by simp)))

variable [DecidablePred allowed] {inode entries : Bytes} {maxEntries base n : Nat} {e : Env} {s : Fs}

/-- **The walk over a block** goes through exactly when all that it touches is allowed. -/
theorem run_readDirRecordsChecked (hread : ∀ a n, allowed (.read a n) → a + n ≤ fs.blockSize)
    (h : ∀ i, i < fs.blockSize → block i = b i)
    (hsize : fs.blockSize ≤ 65536) (hbase : base ≤ 2 ^ 20)
    (hn : n = min fs.blockSize (iSize inode - base)) {k : Nat} (hk : n - x < k) :
    (readDirRecordsChecked allowed fs inode maxEntries block k x (base + x) entries count).run e s
      = if ∀ a ∈ fs.accessesFrom b n maxEntries x count, allowed a then
          some (copyAll maxEntries ((fs.recordsFrom b n x).map (b, ·)) entries count, s)
        else none := by
  -- the induction is on the bound for the turns, each of which goes eight bytes on
  induction k generalizing x entries count with
  | zero => omega
  | succ k ih =>
      rw [readDirRecordsChecked, Ext2Fs.accessesFrom, Ext2Fs.recordsFrom, Prog.run_ite]
      by_cases hx : x < n
      · rw [if_pos (by omega), if_pos hx, Prog.run_check_bind]
        by_cases hhead : ∀ a ∈ headAccesses b x, allowed a
        · obtain ⟨hinode, hlen⟩ := isRecord_congr hread h hhead
          rw [if_pos ((headAccesses_congr hread h).mpr hhead), Prog.run_ite]
          by_cases hr : fs.IsRecord b x
          · obtain ⟨h0, hmin, hmax⟩ := hr
            have hnext : n - (x + recLen b x) < k := by omega
            have hrecord : x < n ∧ fs.IsRecord b x := ⟨hx, h0, hmin, hmax⟩
            rw [hinode, hlen h0, if_neg (by omega), Prog.run_ite, if_neg (by omega), Prog.run_ite,
              u32_eq_self (by omega), u32_eq_self (by omega), Nat.add_assoc, if_pos hrecord.2,
              if_pos hrecord, List.map_cons, copyAll]
            by_cases hroom : count < maxEntries
            · rw [if_pos hroom, if_pos hroom, if_pos hroom, Prog.run_check_bind]
              by_cases hcopy : ∀ a ∈ copyAccesses b x count, allowed a
              · have hin : x + 8 + nameLen b x ≤ fs.blockSize :=
                  hread _ _ (hcopy (.read (x + 8) (nameLen b x)) (by simp [copyAccesses]))
                rw [if_pos ((copyAccesses_congr hread h).mpr hcopy), copyEntry_congr h hin, ih hnext]
                refine if_congr ?_ rfl rfl
                rw [List.forall_mem_append, List.forall_mem_append]
                exact ⟨fun hall => ⟨hhead, hcopy, hall⟩, fun hall => hall.2.2⟩
              · rw [if_neg fun hall => hcopy ((copyAccesses_congr hread h).mp hall), if_neg]
                rw [List.forall_mem_append, List.forall_mem_append]
                exact fun hall => hcopy hall.2.1
            · rw [if_neg hroom, if_neg hroom, if_neg hroom, ih hnext]
              refine if_congr ?_ rfl rfl
              rw [List.forall_mem_append]
              exact ⟨fun hall => ⟨hhead, hall⟩, fun hall => hall.2⟩
          · have hall : ∀ a ∈ headAccesses b x ++ [], allowed a := by simpa using hhead
            have hnone : ¬ (x < n ∧ fs.IsRecord b x) := fun hrecord => hr hrecord.2
            rw [if_neg hr, if_neg hnone, if_pos hall, hinode, List.map_nil, copyAll]
            by_cases h0 : entryInode b x = 0
            · rw [if_pos (Or.inl h0)]
              rfl
            · rw [hlen h0, Prog.run_ite]
              by_cases hzero : entryInode b x = 0 ∨ recLen b x = 0
              · rw [if_pos hzero]
                rfl
              · rw [if_neg hzero, if_pos (by
                  by_contra hok
                  exact hr ⟨h0, by omega, by omega⟩)]
                rfl
        · rw [if_neg fun hall => hhead ((headAccesses_congr hread h).mp hall),
            if_neg fun hall => hhead fun a ha => hall a (List.mem_append_left _ ha)]
      · rw [if_neg (by omega), if_neg hx, if_pos (List.forall_mem_nil _), if_neg fun hr => hx hr.1]
        rfl

/-- What a walk comes to that touches what `all` is about, and that copies `copied` unless a read
fails. -/
def WalkResult (reliable all : Prop) (maxEntries : Nat) (copied : Bytes × Nat) (s : Fs) :
    Option ((Bool × Bytes × Nat) × Fs) → Prop
  | none => ¬ all
  | some ((ok, r), s') =>
      s' = s ∧ r.2 ≤ maxEntries ∧ (ok = true → all ∧ r = copied) ∧ (reliable → ok = true)

/-- A walk that may touch all that it does has an outcome. -/
theorem WalkResult.returns {reliable all : Prop} {maxEntries : Nat} {copied : Bytes × Nat} {s : Fs}
    {o : Option ((Bool × Bytes × Nat) × Fs)} (h : WalkResult reliable all maxEntries copied s o)
    (hall : all) : ∃ ok r, o = some ((ok, r), s) ∧ r.2 ≤ maxEntries ∧ (ok = true → r = copied) ∧
      (reliable → ok = true) := by
  cases o with
  | none => exact absurd hall h
  | some o =>
      obtain ⟨⟨ok, r⟩, s'⟩ := o
      obtain ⟨rfl, hle, hcopied, hok⟩ := h
      exact ⟨ok, r, rfl, hle, fun h => (hcopied h).2, hok⟩

/-- The walk over the block `k` when it has been read: its records are copied if all that it touches is
allowed. -/
theorem run_readDirBlock (hread : ∀ a n, allowed (.read a n) → a + n ≤ fs.blockSize)
    (hsize : fs.blockSize ≤ 65536) {k : Nat} (hk : k < 12)
    (hblock : ∀ i, i < fs.blockSize → block i = fs.dirBlock (s.disks fs.drive) inode k i) :
    (readDirRecordsChecked allowed fs inode maxEntries block steps 0 (k * fs.blockSize + 0) entries
        count).run e s
      = if ∀ a ∈ fs.accessesFrom (fs.dirBlock (s.disks fs.drive) inode k) (fs.dirEnd inode k)
          maxEntries 0 count, allowed a then
          some (copyAll maxEntries ((fs.dirRecords (s.disks fs.drive) inode k).map
            (fs.dirBlock (s.disks fs.drive) inode k, ·)) entries count, s)
        else none := by
  have hbase : k * fs.blockSize ≤ 12 * fs.blockSize := Nat.mul_le_mul_right _ (by omega)
  refine run_readDirRecordsChecked hread hblock hsize (by omega) rfl ?_
  unfold steps
  omega

/-- **The walk over the blocks** goes through when all that it touches is allowed; where it comes to
the end, it was. -/
theorem run_readDirBlocksChecked (hread : ∀ a n, allowed (.read a n) → a + n ≤ fs.blockSize)
    (hfs : fs.HasBlocks) (e : Env) (s : Fs) (inode : Bytes) {m k t : Nat} (hm : k + m = 12)
    (ht : m < t) (entries : Bytes) (hcount : count ≤ maxEntries) :
    WalkResult e.Reliable
      (∀ a ∈ fs.blockAccesses (s.disks fs.drive) inode maxEntries m k count, allowed a) maxEntries
      (copyAll maxEntries (fs.blockRecords (s.disks fs.drive) inode m k) entries count) s
      ((readDirBlocksChecked allowed fs inode maxEntries t (k * fs.blockSize) entries count).run e
        s) := by
  have hpos := hfs.blockSize_pos
  have hsize := hfs.le
  induction m generalizing k t entries count with
  | zero =>
      obtain ⟨t, rfl⟩ : ∃ t', t = t' + 1 := ⟨t - 1, by omega⟩
      have hindex : k * fs.blockSize / fs.blockSize = k := Nat.mul_div_cancel _ hpos
      have hdone : WalkResult e.Reliable (∀ a ∈ ([] : List Access), allowed a) maxEntries
          (entries, count) s (some ((true, (entries, count)), s)) :=
        ⟨rfl, hcount, fun _ => ⟨List.forall_mem_nil _, rfl⟩, fun _ => rfl⟩
      rw [readDirBlocksChecked, Prog.run_ite]
      split
      · dsimp only
        rw [Prog.run_ite, if_pos (by omega)]
        exact hdone
      · exact hdone
  | succ m ih =>
      obtain ⟨t, rfl⟩ : ∃ t', t = t' + 1 := ⟨t - 1, by omega⟩
      have hindex : k * fs.blockSize / fs.blockSize = k := Nat.mul_div_cancel _ hpos
      have hnext : (k + 1) * fs.blockSize ≤ 12 * fs.blockSize := Nat.mul_le_mul_right _ (by omega)
      have hbase : k * fs.blockSize ≤ (k + 1) * fs.blockSize := Nat.mul_le_mul_right _ (by omega)
      have hlt : ¬ 12 ≤ k := by omega
      rw [Ext2Fs.blockAccesses, Ext2Fs.blockRecords, readDirBlocksChecked, Prog.run_ite]
      by_cases hin : k * fs.blockSize < iSize inode ∧ count < maxEntries
      · rw [if_pos hin]
        dsimp only
        rw [Prog.run_ite, hindex, if_neg hlt, Prog.run_ite]
        by_cases h0 : iBlock inode k = 0
        · -- the directory ends at a block that is not there
          have hnone : ¬ (k * fs.blockSize < iSize inode ∧ iBlock inode k ≠ 0) := fun h => h.2 h0
          have hnone' :
              ¬ (k * fs.blockSize < iSize inode ∧ count < maxEntries ∧ iBlock inode k ≠ 0) :=
            fun h => h.2.2 h0
          rw [if_pos h0, if_neg hnone, if_neg hnone']
          exact ⟨rfl, hcount, fun _ => ⟨List.forall_mem_nil _, rfl⟩, fun _ => rfl⟩
        · have hsome : k * fs.blockSize < iSize inode ∧ iBlock inode k ≠ 0 := ⟨hin.1, h0⟩
          have hsome' : k * fs.blockSize < iSize inode ∧ count < maxEntries ∧ iBlock inode k ≠ 0 :=
            ⟨hin.1, hin.2, h0⟩
          obtain ⟨ok, block, hrun, hblock, hok, -⟩ :=
            run_ext2ReadBlock_any hfs (e.enter (.cluster k)) s
            (iBlock inode k) ((e.enter (.cluster k)).junk (.load 0 :: (e.enter (.cluster k)).path))
          rw [if_neg h0, if_pos hsome, if_pos hsome', Prog.run_bind, run_within,
            run_uninitialised, Option.bind_some, Prog.run_bind, run_within, hrun, Option.bind_some]
          dsimp only
          rw [Prog.run_ite]
          cases ok with
          | false => exact ⟨rfl, hcount, nofun, fun he => hok he⟩
          | true =>
              have hsame : ∀ i, i < fs.blockSize →
                  block i = fs.dirBlock (s.disks fs.drive) inode k i := by
                intro i hi
                rw [hblock rfl, copy_inside _ _ _ (Nat.zero_le i) (by omega), Nat.zero_add,
                  Nat.sub_zero]
                rfl
              obtain ⟨rs, hrs⟩ : ∃ rs, rs = (fs.dirRecords (s.disks fs.drive) inode k).map
                (fs.dirBlock (s.disks fs.drive) inode k, ·) := ⟨_, rfl⟩
              have hlast := copyAll_count rs entries hcount
              have hroom : (copyAll maxEntries rs entries count).2 ≤ maxEntries := by omega
              have hrest := ih (k := k + 1) (t := t) (by omega) (by omega)
                (copyAll maxEntries rs entries count).1 hroom
              rw [if_neg (by simp), Prog.run_bind, ← Nat.add_zero (k * fs.blockSize),
                run_readDirBlock hread hsize (by omega) hsame, ← hrs,
                copyAll_append, show (fs.dirRecords (s.disks fs.drive) inode k).length = rs.length by
                  rw [hrs, List.length_map], ← hlast]
              by_cases hall : ∀ a ∈ fs.accessesFrom (fs.dirBlock (s.disks fs.drive) inode k)
                  (fs.dirEnd inode k) maxEntries 0 count, allowed a
              · rw [if_pos hall, Option.bind_some, u32_eq_self (by omega),
                  propext (List.forall_mem_append.trans (and_iff_right hall))]
                exact hrest
              · rw [if_neg hall]
                exact fun h => hall fun a ha => h a (List.mem_append_left _ ha)
      · have hnone' : ¬ (k * fs.blockSize < iSize inode ∧ count < maxEntries ∧ iBlock inode k ≠ 0) :=
          fun h => hin ⟨h.1, h.2.1⟩
        rw [if_neg hin, if_neg hnone']
        refine ⟨rfl, hcount, fun _ => ⟨List.forall_mem_nil _, ?_⟩, fun _ => rfl⟩
        split
        · rw [copyAll_full _ _ (by omega)]
        · rfl

end walk

/-! ## The directory -/

/-- `inode.i_mode` has the bit of a directory. -/
def IsDirectory (inode : Bytes) : Prop := iMode inode &&& 0x4000 = 0x4000

section directory

variable {fs : Ext2Fs} {e : Env} {s : Fs} {n : Nat} {allowed : Access → Prop} [DecidablePred allowed]

/-- A directory is walked from its first block on. -/
theorem run_ext2ReadDirChecked (hread : ∀ a n, allowed (.read a n) → a + n ≤ fs.blockSize)
    (hfs : fs.HasBlocks) {inode : Bytes}
    (hinode : (ext2ReadInode fs n).run (e.enter .find) s = some (some inode, s))
    (hdir : IsDirectory inode) (entries : Bytes) (maxEntries count : Nat) :
    WalkResult e.Reliable
      (∀ a ∈ fs.blockAccesses (s.disks fs.drive) inode maxEntries 12 0 0, allowed a) maxEntries
      (copyAll maxEntries (fs.blockRecords (s.disks fs.drive) inode 12 0) entries 0) s
      ((ext2ReadDirChecked allowed fs maxEntries n entries count).run e s) := by
  unfold ext2ReadDirChecked
  rw [Prog.run_bind, run_within, hinode, Option.bind_some]
  dsimp only
  unfold IsDirectory at hdir
  rw [Prog.run_ite, if_neg (not_not_intro hdir)]
  have hwalk := run_readDirBlocksChecked (k := 0) (m := 12) (t := steps) hread hfs e s inode rfl
    (by decide) entries (Nat.zero_le maxEntries)
  rwa [Nat.zero_mul] at hwalk

/-- Where there is no inode, or it is not that of a directory, nothing is done. -/
theorem run_ext2ReadDirChecked_none {r : Option Bytes}
    (hinode : (ext2ReadInode fs n).run (e.enter .find) s = some (r, s))
    (hr : ∀ inode, r = some inode → ¬ IsDirectory inode) (entries : Bytes) (maxEntries count : Nat) :
    (ext2ReadDirChecked allowed fs maxEntries n entries count).run e s
      = some ((false, entries, count), s) := by
  unfold ext2ReadDirChecked
  rw [Prog.run_bind, run_within, hinode, Option.bind_some]
  cases r with
  | none => rfl
  | some inode =>
      have hdir := hr inode rfl
      unfold IsDirectory at hdir
      dsimp only
      rw [Prog.run_ite, if_pos hdir]
      rfl

end directory

end MicroKernel.Ext2
