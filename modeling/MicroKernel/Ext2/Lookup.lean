import MicroKernel.Ext2.DirectorySafety

set_option autoImplicit false

/-! # What `ext2_find_entry` finds

A directory is a list of records in each of its blocks, where inode 0 marks one that is not in use.
`ext2_read_dir` lists those in front of the first unused one of each block, up to 64 of them, and
`ext2_find_entry` looks for the name among these (`findsEntry_iff`).
-/

namespace MicroKernel.Ext2

open MicroKernel.Lib Bytes
open MicroKernel.Fat32 (Env Fs Io uninitialised run_uninitialised)
open Prog (Below)

/-! ## Directories -/

/-- A record of a directory. -/
structure Record where
  inode : Nat
  name : List UInt8
deriving DecidableEq

/-- The record is in use. -/
def Record.isLive (r : Record) : Bool := decide (r.inode ≠ 0)

/-- The record has the name. -/
def Record.isNamed (name : List UInt8) (r : Record) : Bool := decide (r.name = name)

/-- The record at `x`. -/
def recordAt (b : Bytes) (x : Nat) : Record :=
  ⟨entryInode b x, first (fun i => b (x + 8 + i)) (nameLen b x)⟩

/-- There is a list of records from `x` up to `n`, which begin at these places. -/
inductive IsRecordList (b : Bytes) (n : Nat) : Nat → List Nat → Prop where
  | nil : IsRecordList b n n []
  | cons {x : Nat} {xs : List Nat} (hname : 8 + nameLen b x ≤ recLen b x) (hin : x + recLen b x ≤ n)
      (h : IsRecordList b n (x + recLen b x) xs) : IsRecordList b n x (x :: xs)

namespace Ext2Fs

variable (fs : Ext2Fs)

/-- The inode is that of a directory with `m` blocks, each of them a list of records. -/
structure IsDirectoryFile (d : Disk) (inode : Bytes) (m : Nat) (places : Nat → List Nat) : Prop where
  mode : IsDirectory inode
  size : iSize inode = m * fs.blockSize
  direct : m ≤ 12
  present : ∀ k, k < m → iBlock inode k ≠ 0
  reach : ∀ k, k < m → fs.Reaches (iBlock inode k)
  list : ∀ k, k < m → IsRecordList (fs.blockBytes d (iBlock inode k)) fs.blockSize 0 (places k)

/-- The records of block `k`. -/
def recordsOf (d : Disk) (inode : Bytes) (places : Nat → List Nat) (k : Nat) : List Record :=
  (places k).map (recordAt (fs.blockBytes d (iBlock inode k)))

/-- The records of the directory. -/
def allRecords (d : Disk) (inode : Bytes) (m : Nat) (places : Nat → List Nat) : List Record :=
  (List.range m).flatMap (fs.recordsOf d inode places)

/-- Those in front of the first unused one of their block. -/
def frontRecords (d : Disk) (inode : Bytes) (m : Nat) (places : Nat → List Nat) : List Record :=
  (List.range m).flatMap fun k => (fs.recordsOf d inode places k).takeWhile Record.isLive

end Ext2Fs

/-! ## The search -/

namespace Ext2Fs

variable (fs : Ext2Fs)

/-- The access is to the block buffer, or to the array of the entries. -/
def InArray (maxEntries : Nat) : Access → Prop
  | .read a n => a + n ≤ fs.blockSize
  | .write i a n => entrySize * i + a + n ≤ entrySize * maxEntries

instance (maxEntries : Nat) : DecidablePred (fs.InArray maxEntries)
  | .read a n => inferInstanceAs (Decidable (a + n ≤ fs.blockSize))
  | .write i a n => inferInstanceAs (Decidable (entrySize * i + a + n ≤ entrySize * maxEntries))

end Ext2Fs

/-- `ext2FindEntry` with the checks. -/
def ext2FindEntryChecked (fs : Ext2Fs) (dirInode : Nat) (name : List UInt8) : Io (Option Bytes) := do
  let entries ← uninitialised (.store 0)
  let (ok, entries, count) ← ext2ReadDirChecked (fs.InArray 64) fs 64 dirInode entries 0
  if !ok then return none
  findEntryLoop name entries count 0

/-- A search that has an outcome with the checks has the same without. -/
theorem ext2FindEntryChecked_below (fs : Ext2Fs) (dirInode : Nat) (name : List UInt8) :
    Below (ext2FindEntryChecked fs dirInode name) (ext2FindEntry fs dirInode name) := by
  apply Below.bind (Below.refl _)
  intro entries
  apply Below.bind (ext2ReadDirChecked_below _ _ _ _ _ _)
  intro r
  exact Below.refl _

namespace Ext2Fs

variable (fs : Ext2Fs)

/-- The search for `name` in the directory with inode `n` returns the inode of the first record that
is in use and has the name, and fails where there is none. -/
def FindsEntry (s : Fs) (n m : Nat) (places : Nat → List Nat) (name : List UInt8) : Prop :=
  ∀ (e : Env) (rest : List UInt8), e.Reliable → ∃ r,
    (ext2FindEntryChecked fs n (name ++ 0 :: rest)).run e s = some (r, s) ∧
    r.map (entryInode · 0)
      = ((fs.allRecords (s.disks fs.drive) (fs.inodeBytes (s.disks fs.drive) n) m places).find?
          fun r => r.isLive && r.isNamed name).map Record.inode

/-- The terminator of the 64th name is inside the array, and where a record that is in use has the
name, the first such record is found among the first 64 in front of the unused ones, or another one
with the same inode. -/
structure ListsEntry (d : Disk) (inode : Bytes) (m : Nat) (places : Nat → List Nat)
    (name : List UInt8) : Prop where
  room : ∀ r, (fs.frontRecords d inode m places)[63]? = some r → r.name.length < 255
  listed : ∀ r,
    (fs.allRecords d inode m places).find? (fun r => r.isLive && r.isNamed name) = some r →
    ∃ r', ((fs.frontRecords d inode m places).take 64).find? (Record.isNamed name) = some r' ∧
      r'.inode = r.inode

end Ext2Fs

/-! ## Lists -/

/-- An element of the concatenation, and the list that it comes from. -/
theorem getElem?_flatMap_range {α : Type} (f : Nat → List α) (m : Nat) {j : Nat} {a : α} :
    ((List.range m).flatMap f)[j]? = some a ↔ ∃ k i, k < m ∧ (f k)[i]? = some a ∧
      j = ((List.range k).map fun l => (f l).length).sum + i := by
  induction m with
  | zero => simp
  | succ m ih =>
      have hlen :
          ((List.range m).flatMap f).length = ((List.range m).map fun l => (f l).length).sum :=
        List.length_flatMap
      rw [List.range_succ, List.flatMap_append, List.flatMap_singleton, List.getElem?_append]
      split
      · next hlt =>
          rw [ih]
          constructor
          · rintro ⟨k, i, hk, ha, hj⟩
            exact ⟨k, i, by omega, ha, hj⟩
          · rintro ⟨k, i, hk, ha, hj⟩
            rcases Nat.lt_succ_iff_lt_or_eq.mp hk with hk | rfl
            · exact ⟨k, i, hk, ha, hj⟩
            · omega
      · next hge =>
          constructor
          · exact fun ha => ⟨m, _, Nat.lt_succ_self m, ha, by omega⟩
          · rintro ⟨k, i, hk, ha, hj⟩
            rcases Nat.lt_succ_iff_lt_or_eq.mp hk with hk | rfl
            · have hin := (List.getElem?_eq_some_iff.mp (ih.mpr ⟨k, i, hk, ha, hj⟩)).1
              omega
            · rw [hj, hlen, Nat.add_sub_cancel_left]
              exact ha

/-! ## The records that are listed -/

section records

variable {fs : Ext2Fs} {b b' : Bytes} {n x : Nat} {xs : List Nat}

/-- Every record of a list has its name in front of the end. -/
theorem IsRecordList.inside (h : IsRecordList b n x xs) {y : Nat} (hy : y ∈ xs) :
    y + 8 + nameLen b y ≤ n := by
  induction h with
  | nil => cases hy
  | cons hname hin h ih =>
      rcases List.mem_cons.mp hy with rfl | hy
      · omega
      · exact ih hy

theorem recordAt_congr (h : ∀ i, i < fs.blockSize → b' i = b i)
    (hx : x + 8 + nameLen b x ≤ fs.blockSize) : recordAt b' x = recordAt b x := by
  have hname : first (fun i => b' (x + 8 + i)) (nameLen b x)
      = first (fun i => b (x + 8 + i)) (nameLen b x) :=
    List.map_congr_left fun i hi => h _ (by
      have := List.mem_range.mp hi
      omega)
  unfold recordAt
  rw [entryInode_congr h (by omega), nameLen_congr h (by omega), hname]

theorem IsRecordList.congr (hlist : IsRecordList b fs.blockSize x xs)
    (h : ∀ i, i < fs.blockSize → b' i = b i) : IsRecordList b' fs.blockSize x xs := by
  induction hlist with
  | nil => exact .nil
  | @cons x xs hname hin hlist ih =>
      have hlen := recLen_congr h (show x + 6 ≤ fs.blockSize by omega)
      have hnameLen := nameLen_congr h (show x + 8 ≤ fs.blockSize by omega)
      exact .cons (by omega) (by omega) (by rw [hlen]; exact ih)

/-- **The records that the driver comes to** are those in front of the first unused one. -/
theorem IsRecordList.recordsFrom_eq (h : IsRecordList b fs.blockSize x xs) :
    fs.recordsFrom b fs.blockSize x = xs.takeWhile fun y => (recordAt b y).isLive := by
  induction h with
  | nil =>
      rw [Ext2Fs.recordsFrom, if_neg fun h => absurd h.1 (Nat.lt_irrefl _)]
      rfl
  | @cons x xs hname hin h ih =>
      rw [Ext2Fs.recordsFrom]
      by_cases h0 : entryInode b x = 0
      · rw [if_neg fun h => h.2.1 h0, List.takeWhile_cons_of_neg]
        exact fun hlive => of_decide_eq_true hlive h0
      · rw [if_pos ⟨by omega, h0, by omega, by omega⟩, ih, List.takeWhile_cons_of_pos]
        exact decide_eq_true h0

/-- Where the driver stops, there is a head, or it is the end. -/
theorem IsRecordList.endFrom_le (h : IsRecordList b fs.blockSize x xs) :
    fs.endFrom b fs.blockSize x < fs.blockSize → fs.endFrom b fs.blockSize x + 8 ≤ fs.blockSize := by
  induction h with
  | nil =>
      rw [Ext2Fs.endFrom, if_neg fun h => absurd h.1 (Nat.lt_irrefl _)]
      omega
  | @cons x xs hname hin h ih =>
      rw [Ext2Fs.endFrom]
      split
      · exact ih
      · omega

/-- Of a list of records only the room for the names is in question. -/
theorem IsRecordList.recordsFit_iff (h : IsRecordList b fs.blockSize x xs) {maxEntries count : Nat}
    {room : Nat → Nat → Prop} :
    fs.RecordsFit b fs.blockSize maxEntries room x count ↔
      ∀ i y, (fs.recordsFrom b fs.blockSize x)[i]? = some y → count + i < maxEntries →
        room (count + i) (nameLen b y) := by
  have hmem : ∀ y, y ∈ fs.recordsFrom b fs.blockSize x → y + 8 + nameLen b y ≤ fs.blockSize := by
    intro y hy
    rw [h.recordsFrom_eq] at hy
    exact h.inside (List.takeWhile_subset _ hy)
  have hend := h.endFrom_le
  constructor
  · exact fun hfit i y hy hi => (hfit.name i y hy hi).2
  · intro hroom
    refine ⟨fun y hy => ?_, fun i y hy hi => ⟨hmem y (List.mem_of_getElem? hy), hroom i y hy hi⟩,
      fun hlt => ⟨?_, fun _ => ?_⟩⟩
    · have := hmem y hy
      omega
    · have := hend hlt
      omega
    · have := hend hlt
      omega

end records

section file

variable {fs : Ext2Fs} {d : Disk} {inode : Bytes} {m k : Nat} {places : Nat → List Nat}

/-- The driver sees the lists of records. -/
theorem Ext2Fs.IsDirectoryFile.dirList (h : fs.IsDirectoryFile d inode m places) (hfs : fs.HasBlocks)
    (hk : k < m) : IsRecordList (fs.dirBlock d inode k) fs.blockSize 0 (places k) :=
  (h.list k hk).congr fun _ hi => addressedBytes_eq hfs (h.reach k hk) d hi

/-- Every block is whole. -/
theorem Ext2Fs.IsDirectoryFile.dirEnd_eq (h : fs.IsDirectoryFile d inode m places) (hk : k < m) :
    fs.dirEnd inode k = fs.blockSize := by
  have hle : (k + 1) * fs.blockSize ≤ m * fs.blockSize := Nat.mul_le_mul_right _ hk
  rw [Nat.add_mul, Nat.one_mul] at hle
  unfold dirEnd
  rw [h.size]
  omega

/-- The records that the driver comes to in block `k`. -/
theorem Ext2Fs.IsDirectoryFile.dirRecords_map (h : fs.IsDirectoryFile d inode m places)
    (hfs : fs.HasBlocks) (hk : k < m) :
    (fs.dirRecords d inode k).map (recordAt (fs.dirBlock d inode k))
      = (fs.recordsOf d inode places k).takeWhile Record.isLive := by
  have hsame : (places k).map (recordAt (fs.dirBlock d inode k)) = fs.recordsOf d inode places k :=
    List.map_congr_left fun x hx => recordAt_congr
      (fun _ hi => addressedBytes_eq hfs (h.reach k hk) d hi) ((h.list k hk).inside hx)
  unfold dirRecords
  rw [h.dirEnd_eq hk, (h.dirList hfs hk).recordsFrom_eq, ← hsame, List.takeWhile_map]
  rfl

theorem Ext2Fs.IsDirectoryFile.isWalked_iff (h : fs.IsDirectoryFile d inode m places)
    (hfs : fs.HasBlocks) {maxEntries : Nat} :
    fs.IsWalked d inode maxEntries k ↔ k < m ∧ fs.recordsBefore d inode k < maxEntries := by
  have hpos := hfs.blockSize_pos
  have hdirect := h.direct
  constructor
  · rintro ⟨-, hlt, -, hbefore⟩
    rw [h.size] at hlt
    exact ⟨Nat.lt_of_mul_lt_mul_right hlt, hbefore⟩
  · rintro ⟨hk, hbefore⟩
    refine ⟨by omega, ?_, fun j hj => h.present j (by omega), hbefore⟩
    rw [h.size]
    exact Nat.mul_lt_mul_of_pos_right hk hpos

/-- The number of records that the driver comes to in front of block `k`. -/
theorem Ext2Fs.IsDirectoryFile.recordsBefore_eq (h : fs.IsDirectoryFile d inode m places)
    (hfs : fs.HasBlocks) (hk : k ≤ m) :
    fs.recordsBefore d inode k = ((List.range k).map fun l =>
      ((fs.recordsOf d inode places l).takeWhile Record.isLive).length).sum := by
  unfold recordsBefore
  congr 1
  refine List.map_congr_left fun l hl => ?_
  have hlt := List.mem_range.mp hl
  rw [← h.dirRecords_map hfs (show l < m by omega), List.length_map]

theorem Ext2Fs.bounds_inArray (fs : Ext2Fs) :
    Bounds fs 64 (fun i n => 263 * i + 8 + n < 263 * 64) (fs.InArray 64) := by
  refine ⟨fun a n => Iff.rfl, fun i n hi => ?_⟩
  unfold InArray entrySize
  dsimp only
  omega

/-- **No access goes astray** when the 64th record has a name of fewer than 255 characters. -/
theorem Ext2Fs.IsDirectoryFile.allowed_iff (h : fs.IsDirectoryFile d inode m places)
    (hfs : fs.HasBlocks) :
    (∀ a ∈ fs.blockAccesses d inode 64 12 0 0, fs.InArray 64 a) ↔
      ∀ r, (fs.frontRecords d inode m places)[63]? = some r → r.name.length < 255 := by
  rw [fs.bounds_inArray.directory_iff]
  constructor
  · intro hfit r hr
    obtain ⟨k, i, hk, hi, hbefore⟩ := (getElem?_flatMap_range _ _).mp hr
    rw [← h.recordsBefore_eq hfs (Nat.le_of_lt hk)] at hbefore
    rw [← h.dirRecords_map hfs hk, List.getElem?_map] at hi
    obtain ⟨y, hy, rfl⟩ := Option.map_eq_some_iff.mp hi
    have hroom := hfit k ((h.isWalked_iff hfs).mpr ⟨hk, by omega⟩)
    rw [h.dirEnd_eq hk, (h.dirList hfs hk).recordsFit_iff] at hroom
    unfold dirRecords at hy
    rw [h.dirEnd_eq hk] at hy
    have hlt := hroom i y hy (by omega)
    unfold recordAt
    rw [length_first]
    omega
  · intro hlast k hwalked
    obtain ⟨hk, hbefore⟩ := (h.isWalked_iff hfs).mp hwalked
    rw [h.dirEnd_eq hk, (h.dirList hfs hk).recordsFit_iff]
    intro i y hy hi
    have hle := nameLen_le (fs.dirBlock d inode k) y
    rcases Nat.lt_or_ge (fs.recordsBefore d inode k + i) 63 with hlt | hge
    · omega
    · have hrecord : ((fs.dirRecords d inode k).map (recordAt (fs.dirBlock d inode k)))[i]?
          = some (recordAt (fs.dirBlock d inode k) y) := by
        unfold dirRecords
        rw [h.dirEnd_eq hk, List.getElem?_map, hy]
        rfl
      rw [h.dirRecords_map hfs hk] at hrecord
      have hlen := hlast _ ((getElem?_flatMap_range _ _).mpr ⟨k, i, hk, hrecord, by
        rw [← h.recordsBefore_eq hfs (Nat.le_of_lt hk)]
        omega⟩)
      unfold recordAt at hlen
      rw [length_first] at hlen
      omega

/-- The records that the driver comes to, from block `k` on. -/
theorem Ext2Fs.IsDirectoryFile.blockRecords_map (h : fs.IsDirectoryFile d inode m places)
    (hfs : fs.HasBlocks) {r : Nat} (hr : k + r = 12) :
    (fs.blockRecords d inode r k).map (fun p => recordAt p.1 p.2)
      = (List.range' k (m - k)).flatMap fun l =>
          (fs.recordsOf d inode places l).takeWhile Record.isLive := by
  have hpos := hfs.blockSize_pos
  have hdirect := h.direct
  induction r generalizing k with
  | zero =>
      rw [show m - k = 0 by omega]
      rfl
  | succ r ih =>
      rw [blockRecords, h.size]
      rcases Nat.lt_or_ge k m with hk | hk
      · have hin : k * fs.blockSize < m * fs.blockSize := Nat.mul_lt_mul_of_pos_right hk hpos
        rw [if_pos ⟨hin, h.present k hk⟩, List.map_append, List.map_map, ih (by omega),
          show m - k = m - (k + 1) + 1 by omega, List.range'_succ, List.flatMap_cons,
          ← h.dirRecords_map hfs hk]
        rfl
      · have hout : ¬ k * fs.blockSize < m * fs.blockSize :=
          Nat.not_lt.mpr (Nat.mul_le_mul_right _ hk)
        rw [if_neg fun hin => hout hin.1, show m - k = 0 by omega]
        rfl

theorem Ext2Fs.IsDirectoryFile.blockRecords_eq (h : fs.IsDirectoryFile d inode m places)
    (hfs : fs.HasBlocks) :
    (fs.blockRecords d inode 12 0).map (fun p => recordAt p.1 p.2)
      = fs.frontRecords d inode m places := by
  rw [h.blockRecords_map hfs (Nat.zero_add 12), Nat.sub_zero, ← List.range_eq_range']
  rfl

end file

/-! ## The entries -/

/-- The entries are these records. -/
def Holds (entries : Bytes) (l : List Record) : Prop :=
  ∀ i r, l[i]? = some r → recordAt entries (entrySize * i) = r

section entries

variable {entries : Bytes} {l : List Record} {b : Bytes} {x : Nat}

/-- Nothing in front of the entry is written. -/
theorem copyEntry_lt (entries : Bytes) (count : Nat) (b : Bytes) (x : Nat) {y : Nat}
    (hy : y < entrySize * count) : copyEntry entries count b x y = entries y := by
  unfold entrySize at hy
  rw [copyEntry_eq, store8_ne _ _ (by omega), copy_outside _ _ _ (by omega), store8_ne _ _ (by omega),
    store8_ne _ _ (by omega), store16_outside _ _ (by omega), store32_outside _ _ (by omega)]

/-- The entry that was written. -/
theorem recordAt_copyEntry_same (entries : Bytes) (count : Nat) (b : Bytes) (x : Nat) :
    recordAt (copyEntry entries count b x) (entrySize * count) = recordAt b x := by
  have hinode : entryInode (copyEntry entries count b x) (263 * count) = entryInode b x := by
    have hword := load32_store32_same entries (263 * count) (entryInode b x)
    rw [show entryInode b x % 2 ^ 32 = entryInode b x from Nat.mod_eq_of_lt (load32_lt b x)] at hword
    refine (load32_congr fun i hi => ?_).trans hword
    rw [copyEntry_eq, store8_ne _ _ (by omega), copy_outside _ _ _ (by omega),
      store8_ne _ _ (by omega), store8_ne _ _ (by omega), store16_outside _ _ (by omega)]
  have hlen : nameLen (copyEntry entries count b x) (263 * count) = nameLen b x := by
    unfold nameLen
    rw [copyEntry_eq, store8_ne _ _ (by omega), copy_outside _ _ _ (by omega),
      store8_ne _ _ (by omega), store8_same]
  have hname : first (fun i => copyEntry entries count b x (263 * count + 8 + i)) (nameLen b x)
      = first (fun i => b (x + 8 + i)) (nameLen b x) := by
    refine List.map_congr_left fun i hi => ?_
    have hlt := List.mem_range.mp hi
    rw [copyEntry_eq, store8_ne _ _ (by omega), copy_inside _ _ _ (by omega) (by omega),
      Nat.add_sub_cancel_left]
  unfold recordAt entrySize
  rw [hinode, hlen, hname]

/-- Those in front of it. -/
theorem recordAt_copyEntry_lt (entries : Bytes) {i count : Nat} (hi : i < count) (b : Bytes)
    (x : Nat) :
    recordAt (copyEntry entries count b x) (entrySize * i) = recordAt entries (entrySize * i) := by
  have hsame : ∀ j, j < 263 →
      copyEntry entries count b x (263 * i + j) = entries (263 * i + j) := fun j hj =>
    copyEntry_lt _ _ _ _ (by unfold entrySize; omega)
  have hle := nameLen_le entries (263 * i)
  have hlen : nameLen (copyEntry entries count b x) (263 * i) = nameLen entries (263 * i) :=
    congrArg UInt8.toNat (hsame 6 (by decide))
  have hname :
      first (fun j => copyEntry entries count b x (263 * i + 8 + j)) (nameLen entries (263 * i))
      = first (fun j => entries (263 * i + 8 + j)) (nameLen entries (263 * i)) := by
    refine List.map_congr_left fun j hj => ?_
    have hlt := List.mem_range.mp hj
    rw [Nat.add_assoc]
    exact hsame (8 + j) (by omega)
  unfold recordAt entrySize
  rw [hlen, hname]
  exact congrArg (Record.mk · _) (load32_congr fun j hj => hsame j (by omega))

theorem Holds.copyEntry (h : Holds entries l) (b : Bytes) (x : Nat) :
    Holds (copyEntry entries l.length b x) (l ++ [recordAt b x]) := by
  intro i r hr
  rw [List.getElem?_append] at hr
  split at hr
  · next hlt =>
      rw [recordAt_copyEntry_lt _ hlt]
      exact h i r hr
  · next hge =>
      rw [List.getElem?_singleton] at hr
      split at hr
      · next hzero =>
          obtain rfl : i = l.length := by omega
          rw [recordAt_copyEntry_same]
          exact Option.some.inj hr
      · cases hr

/-- **What the entries are after the walk.** -/
theorem Holds.copyAll (h : Holds entries l) (maxEntries : Nat) (hl : l.length ≤ maxEntries)
    (rs : List (Bytes × Nat)) :
    Holds (copyAll maxEntries rs entries l.length).1
      ((l ++ rs.map fun p => recordAt p.1 p.2).take maxEntries) := by
  induction rs generalizing entries l with
  | nil =>
      rw [List.map_nil, List.append_nil, List.take_of_length_le hl]
      exact h
  | cons p rs ih =>
      rw [Ext2.copyAll, List.map_cons]
      split
      · next hlt =>
          have hrest := ih (h.copyEntry p.1 p.2) (by simpa using hlt)
          rw [List.length_append, List.length_singleton, List.append_assoc] at hrest
          exact hrest
      · next hfull =>
          have hlen : l.length = maxEntries := by omega
          rw [copyAll_full _ _ (by omega), ← hlen, List.take_left]
          exact h

/-- **The search among the entries** finds the first one with the name. -/
theorem run_findEntryLoop (h : Holds entries l) (hl : l.length ≤ 64) {name : List UInt8}
    (hname : 0 ∉ name) (rest : List UInt8) (e : Env) (s : Fs) {n i : Nat} (hn : i + n = l.length) :
    ∃ r, (findEntryLoop (name ++ 0 :: rest) entries n i).run e s = some (r, s) ∧
      r.map (entryInode · 0) = ((l.drop i).find? (Record.isNamed name)).map Record.inode := by
  induction n generalizing i with
  | zero =>
      rw [List.drop_of_length_le (by omega)]
      exact ⟨none, rfl, rfl⟩
  | succ n ih =>
      have hlt : i < l.length := by omega
      have hrecord := h i l[i] (List.getElem?_eq_getElem hlt)
      have hle := nameLen_le entries (entrySize * i)
      -- the cells of the name, and those behind it
      have hcells : first (fun x => entries (entrySize * i + 8 + x))
          (entrySize * 64 - (entrySize * i + 8)) = l[i].name ++
            (first (fun x => entries (entrySize * i + 8 + x))
              (entrySize * 64 - (entrySize * i + 8))).drop (nameLen entries (entrySize * i)) := by
        have htake := take_first (fun x => entries (entrySize * i + 8 + x))
          (show nameLen entries (entrySize * i) ≤ entrySize * 64 - (entrySize * i + 8) by
            unfold entrySize at *
            omega)
        rw [← hrecord]
        exact ((List.take_append_drop (nameLen entries (entrySize * i)) _).symm).trans
          (by rw [htake]; rfl)
      have hlen : nameLen entries (entrySize * i) = l[i].name.length := by
        rw [← hrecord]
        exact (length_first _ _).symm
      obtain ⟨c, hcmp, hiff⟩ := Libc.strncmp_eq (l := l[i].name) hname
        ((first (fun x => entries (entrySize * i + 8 + x))
          (entrySize * 64 - (entrySize * i + 8))).drop (nameLen entries (entrySize * i))) rest
      rw [findEntryLoop, hcells, hlen, Libc.strlen_eq hname]
      rw [hlen] at hcmp
      rw [hcmp, List.drop_eq_getElem_cons hlt]
      dsimp only
      rw [Prog.run_ite]
      by_cases hfound : l[i].name = name
      · rw [if_pos (hiff.mpr hfound), List.find?_cons_of_pos (by simpa [Record.isNamed] using hfound)]
        refine ⟨_, rfl, congrArg some (Eq.trans ?_ (congrArg Record.inode hrecord))⟩
        exact load32_congr fun j _ => by rw [Nat.zero_add]
      · rw [if_neg fun hc => hfound (hiff.mp hc),
          List.find?_cons_of_neg (by simpa [Record.isNamed] using hfound)]
        exact ih (by omega)

end entries

/-! ## The result -/

section result

variable {fs : Ext2Fs} {s : Fs} {d : Disk} {inode inode' : Bytes} {n m : Nat}
  {places : Nat → List Nat}
  {name : List UInt8}

/-- The 128 bytes of the inode say all about the directory. -/
theorem Ext2Fs.IsDirectoryFile.congr (h : fs.IsDirectoryFile d inode m places)
    (hfill : Filled inode' inode 0 128) : fs.IsDirectoryFile d inode' m places := by
  have hdirect := h.direct
  have hblock : ∀ k, k < m → iBlock inode' k = iBlock inode k := fun k hk =>
    iBlock_congr hfill (by omega)
  have hmode : iMode inode' = iMode inode := by
    unfold iMode load16
    rw [hfill 0 (by decide), hfill 1 (by decide)]
  refine ⟨?_, (iSize_congr hfill).trans h.size, hdirect, fun k hk => ?_, fun k hk => ?_,
    fun k hk => ?_⟩
  · unfold IsDirectory
    rw [hmode]
    exact h.mode
  · rw [hblock k hk]
    exact h.present k hk
  · rw [hblock k hk]
    exact h.reach k hk
  · rw [hblock k hk]
    exact h.list k hk

theorem Ext2Fs.IsDirectoryFile.frontRecords_congr (h : fs.IsDirectoryFile d inode m places)
    (hfill : Filled inode' inode 0 128) :
    fs.frontRecords d inode' m places = fs.frontRecords d inode m places := by
  have hdirect := h.direct
  refine List.flatMap_congr fun k hk => ?_
  have hlt := List.mem_range.mp hk
  unfold recordsOf
  rw [iBlock_congr hfill (by omega)]

/-- **`ext2_find_entry`** searches the first 64 records in front of the unused ones where there is
room for them. -/
theorem run_ext2FindEntryChecked (hfs : fs.WellFormed) (hn : fs.HasInode n)
    (h : fs.IsDirectoryFile (s.disks fs.drive) (fs.inodeBytes (s.disks fs.drive) n) m places)
    (hname : 0 ∉ name) (rest : List UInt8) {e : Env} (he : e.Reliable) {front : List Record}
    (hfront : front
      = fs.frontRecords (s.disks fs.drive) (fs.inodeBytes (s.disks fs.drive) n) m places)
    (hroom : ∀ r, front[63]? = some r → r.name.length < 255) :
    ∃ r, (ext2FindEntryChecked fs n (name ++ 0 :: rest)).run e s = some (r, s) ∧
      r.map (entryInode · 0) = ((front.take 64).find? (Record.isNamed name)).map Record.inode := by
  obtain ⟨inode, hinode, hfill⟩ := run_ext2ReadInode (s := s) (he.enter .find) hfs hn
  have hdir := h.congr hfill
  have hsame := h.frontRecords_congr hfill
  have hread : ∀ a n, fs.InArray 64 (.read a n) → a + n ≤ fs.blockSize := fun _ _ h => h
  have hwalk := run_ext2ReadDirChecked hread hfs.toHasBlocks hinode hdir.mode
    (e.junk (.store 0 :: e.path)) 64 0
  obtain ⟨ok, r, hrun, hle, hcopied, hok⟩ := hwalk.returns ((hdir.allowed_iff hfs.toHasBlocks).mpr (by
    rw [hsame, ← hfront]
    exact hroom))
  obtain rfl := hok he
  obtain rfl := hcopied rfl
  have hempty : Holds (e.junk (.store 0 :: e.path)) [] := fun i r hr => by cases hr
  have hholds := hempty.copyAll 64 (Nat.zero_le _)
    (fs.blockRecords (s.disks fs.drive) inode 12 0)
  have hcount := copyAll_count (fs.blockRecords (s.disks fs.drive) inode 12 0)
    (e.junk (.store 0 :: e.path)) (Nat.zero_le 64)
  rw [List.nil_append, hdir.blockRecords_eq hfs.toHasBlocks, hsame, ← hfront] at hholds
  have hlen : (front.take 64).length
      = (copyAll 64 (fs.blockRecords (s.disks fs.drive) inode 12 0)
          (e.junk (.store 0 :: e.path)) 0).2 := by
    rw [hcount, List.length_take, hfront, ← hsame, ← hdir.blockRecords_eq hfs.toHasBlocks,
      List.length_map, Nat.zero_add]
  obtain ⟨r, hloop, hr⟩ := run_findEntryLoop hholds (by rw [List.length_take]; omega) hname rest e s
    (Nat.zero_add (front.take 64).length)
  rw [List.drop_zero] at hr
  refine ⟨r, ?_, hr⟩
  unfold ext2FindEntryChecked
  rw [Prog.run_bind, run_uninitialised, Option.bind_some, Prog.run_bind, hrun, Option.bind_some]
  dsimp only
  rw [Prog.run_ite, if_neg (by simp), ← hlen]
  exact hloop

/-- A search that has an outcome had room for the records. -/
theorem room_of_run_ext2FindEntryChecked (hfs : fs.WellFormed) (hn : fs.HasInode n)
    (h : fs.IsDirectoryFile (s.disks fs.drive) (fs.inodeBytes (s.disks fs.drive) n) m places)
    {e : Env} (he : e.Reliable) {r : Option Bytes × Fs}
    (hrun : (ext2FindEntryChecked fs n name).run e s = some r) :
    ∀ r, (fs.frontRecords (s.disks fs.drive) (fs.inodeBytes (s.disks fs.drive) n) m places)[63]?
      = some r →
      r.name.length < 255 := by
  obtain ⟨inode, hinode, hfill⟩ := run_ext2ReadInode (s := s) (he.enter .find) hfs hn
  have hdir := h.congr hfill
  have hread : ∀ a n, fs.InArray 64 (.read a n) → a + n ≤ fs.blockSize := fun _ _ h => h
  have hwalk := run_ext2ReadDirChecked hread hfs.toHasBlocks hinode hdir.mode
    (e.junk (.store 0 :: e.path)) 64 0
  unfold ext2FindEntryChecked at hrun
  rw [Prog.run_bind, run_uninitialised, Option.bind_some, Prog.run_bind] at hrun
  obtain ⟨⟨⟨ok, r₁⟩, s₁⟩, hdirRun, -⟩ := Option.bind_eq_some_iff.mp hrun
  rw [hdirRun] at hwalk
  obtain ⟨-, -, hall, hok⟩ := hwalk
  have hallowed := (hdir.allowed_iff hfs.toHasBlocks).mp (hall (hok he)).1
  rwa [h.frontRecords_congr hfill] at hallowed

/-- The records in front of the unused ones are records in use. -/
theorem Ext2Fs.mem_frontRecords {r : Record} (hr : r ∈ fs.frontRecords d inode m places) :
    r ∈ fs.allRecords d inode m places ∧ r.isLive = true := by
  obtain ⟨k, hk, hr⟩ := List.mem_flatMap.mp hr
  exact ⟨List.mem_flatMap.mpr ⟨k, hk, List.takeWhile_subset _ hr⟩, List.mem_takeWhile_imp hr⟩

/-- **When `ext2_find_entry` finds what it should.** -/
theorem findsEntry_iff (hfs : fs.WellFormed) (hn : fs.HasInode n)
    (h : fs.IsDirectoryFile (s.disks fs.drive) (fs.inodeBytes (s.disks fs.drive) n) m places)
    (hname : 0 ∉ name) :
    fs.FindsEntry s n m places name ↔
      fs.ListsEntry (s.disks fs.drive) (fs.inodeBytes (s.disks fs.drive) n) m places name := by
  constructor
  · intro hfinds
    obtain ⟨r, hrun, hr⟩ := hfinds Fat32.quietEnv [] Fat32.quietEnv_reliable
    have hroom := room_of_run_ext2FindEntryChecked hfs hn h Fat32.quietEnv_reliable hrun
    obtain ⟨r', hrun', hr'⟩ :=
      run_ext2FindEntryChecked hfs hn h hname [] Fat32.quietEnv_reliable rfl hroom
    rw [hrun] at hrun'
    obtain rfl : r = r' := congrArg Prod.fst (Option.some.inj hrun')
    refine ⟨hroom, fun first hfirst => ?_⟩
    rw [hr, hfirst] at hr'
    obtain ⟨r', hr', heq⟩ := Option.map_eq_some_iff.mp hr'.symm
    exact ⟨r', hr', heq⟩
  · rintro ⟨hroom, hlisted⟩ e rest he
    obtain ⟨r, hrun, hr⟩ := run_ext2FindEntryChecked hfs hn h hname rest he rfl hroom
    refine ⟨r, hrun, hr.trans ?_⟩
    cases hfirst : (fs.allRecords (s.disks fs.drive) (fs.inodeBytes (s.disks fs.drive) n) m
        places).find? fun r => r.isLive && r.isNamed name with
    | none =>
        rw [List.find?_eq_none.mpr fun r hr => ?_]
        obtain ⟨hmem, hlive⟩ := Ext2Fs.mem_frontRecords (List.take_subset _ _ hr)
        have hnot := List.find?_eq_none.mp hfirst r hmem
        rwa [hlive, Bool.true_and] at hnot
    | some first =>
        obtain ⟨r', hr', heq⟩ := hlisted first hfirst
        rw [hr']
        exact congrArg some heq


end result

/-! ## Two directories -/

section directories

variable {block : Bytes} {xs : List Nat}

/-- A list of records in block 9 makes inode 2 a directory. -/
theorem directoryDisk_isDirectoryFile (h : IsRecordList block 1024 0 xs) :
    (volumeOf 1024).IsDirectoryFile (directoryDisk block)
      ((volumeOf 1024).inodeBytes (directoryDisk block) 2) 1 (fun _ => xs) := by
  have hinode := directoryDisk_inodeBytes block
  have hblocks : (volumeOf 1024).HasBlocks := AcceptedSize.hasBlocks ⟨0, by decide, rfl⟩
  have hreach : (volumeOf 1024).Reaches 9 := by
    unfold Ext2Fs.Reaches
    decide
  have hblock : iBlock ((volumeOf 1024).inodeBytes (directoryDisk block) 2) 0 = 9 :=
    directoryTable_iBlock hinode
  refine ⟨directoryTable_mode hinode, directoryTable_size hinode, by decide, fun k hk => ?_,
    fun k hk => ?_, fun k hk => ?_⟩ <;> obtain rfl : k = 0 := by omega
  · rw [hblock]
    decide
  · rw [hblock]
    exact hreach
  · rw [hblock]
    have hlist : IsRecordList block (volumeOf 1024).blockSize 0 xs := h
    refine hlist.congr fun i hi => ?_
    rw [← Ext2Fs.addressedBytes_eq hblocks hreach _ hi]
    exact directoryDisk_block block hi

/-- Its records. -/
theorem directoryDisk_records (h : IsRecordList block 1024 0 xs) {l : List Record}
    (hl : xs.map (recordAt block) = l) :
    (volumeOf 1024).allRecords (directoryDisk block)
        ((volumeOf 1024).inodeBytes (directoryDisk block) 2) 1 (fun _ => xs) = l ∧
      (volumeOf 1024).frontRecords (directoryDisk block)
        ((volumeOf 1024).inodeBytes (directoryDisk block) 2) 1 (fun _ => xs)
        = l.takeWhile Record.isLive := by
  have hlist : IsRecordList block (volumeOf 1024).blockSize 0 xs := h
  have hblocks : (volumeOf 1024).HasBlocks := AcceptedSize.hasBlocks ⟨0, by decide, rfl⟩
  have hreach : (volumeOf 1024).Reaches 9 := by
    unfold Ext2Fs.Reaches
    decide
  have hsame : (volumeOf 1024).recordsOf (directoryDisk block)
      ((volumeOf 1024).inodeBytes (directoryDisk block) 2) (fun _ => xs) 0 = l := by
    unfold Ext2Fs.recordsOf
    rw [directoryTable_iBlock (directoryDisk_inodeBytes block), ← hl]
    refine List.map_congr_left fun x hx => recordAt_congr (fun i hi => ?_) (hlist.inside hx)
    rw [← Ext2Fs.addressedBytes_eq hblocks hreach _ hi]
    exact directoryDisk_block block hi
  unfold Ext2Fs.allRecords Ext2Fs.frontRecords
  rw [List.range_one, List.flatMap_singleton, List.flatMap_singleton, hsame]
  exact ⟨rfl, rfl⟩

end directories

/-- A record of twelve bytes and one behind it up to the end of the block. -/
def twoRecords (inode : Nat) (name name' : List UInt8) : Bytes :=
  withRecord (withRecord (fun _ => 0) 0 inode 12 name) 12 13 1012 name'

/-- Of two names, of which one is the beginning of the other, the right one is found. -/
theorem findsEntry_iff_second :
    (volumeOf 1024).FindsEntry (onEveryDrive (directoryDisk (twoRecords 12 [0x61] [0x61, 0x62]))) 2 1
      (fun _ => [0, 12]) [0x61, 0x62] := by
  have hlist : IsRecordList (twoRecords 12 [0x61] [0x61, 0x62]) 1024 0 [0, 12] :=
    .cons (by decide) (by decide) (.cons (by decide) (by decide) .nil)
  obtain ⟨hall, hfront⟩ := directoryDisk_records hlist
    (show _ = [⟨12, [0x61]⟩, ⟨13, [0x61, 0x62]⟩] by decide)
  refine (findsEntry_iff ⟨AcceptedSize.hasBlocks ⟨0, by decide, rfl⟩, by decide⟩ volumeOf_hasInode
    (directoryDisk_isDirectoryFile hlist) (by decide)).mpr ⟨fun r hr => ?_, fun r hr => ⟨r, ?_, rfl⟩⟩
  · rw [onEveryDrive_disks, hfront] at hr
    cases hr
  · rw [onEveryDrive_disks, hall] at hr
    rw [onEveryDrive_disks, hfront, ← hr]
    decide

/-- A name behind an unused record is not found. -/
theorem not_findsEntry : ¬ ∀ (fs : Ext2Fs) (s : Fs) (n m : Nat) (places : Nat → List Nat)
    (name : List UInt8), fs.WellFormed → fs.HasInode n →
    fs.IsDirectoryFile (s.disks fs.drive) (fs.inodeBytes (s.disks fs.drive) n) m places →
    0 ∉ name → name ≠ [] → name.length ≤ 255 → fs.FindsEntry s n m places name := by
  intro hclaim
  have hfs : (volumeOf 1024).WellFormed := ⟨AcceptedSize.hasBlocks ⟨0, by decide, rfl⟩, by decide⟩
  have hlist : IsRecordList (twoRecords 0 [0x61] [0x61, 0x62]) 1024 0 [0, 12] :=
    .cons (by decide) (by decide) (.cons (by decide) (by decide) .nil)
  have hname : 0 ∉ [0x61, (0x62 : UInt8)] := by decide
  obtain ⟨hall, hfront⟩ := directoryDisk_records hlist
    (show _ = [⟨0, [0x61]⟩, ⟨13, [0x61, 0x62]⟩] by decide)
  obtain ⟨r, hrun, hr⟩ := hclaim (volumeOf 1024)
    (onEveryDrive (directoryDisk (twoRecords 0 [0x61] [0x61, 0x62]))) 2 1 (fun _ => [0, 12])
    [0x61, 0x62] hfs volumeOf_hasInode (directoryDisk_isDirectoryFile hlist) hname (by decide)
    (by decide) Fat32.quietEnv [] Fat32.quietEnv_reliable
  obtain ⟨r', hrun', hr'⟩ := run_ext2FindEntryChecked
    (s := onEveryDrive (directoryDisk (twoRecords 0 [0x61] [0x61, 0x62]))) hfs volumeOf_hasInode
    (directoryDisk_isDirectoryFile hlist) hname [] Fat32.quietEnv_reliable hfront.symm
    (fun r hr => by cases hr)
  rw [hrun] at hrun'
  obtain rfl : r = r' := congrArg Prod.fst (Option.some.inj hrun')
  rw [hr, onEveryDrive_disks, hall] at hr'
  exact absurd hr' (by decide)

end MicroKernel.Ext2
