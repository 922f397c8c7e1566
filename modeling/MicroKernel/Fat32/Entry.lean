import MicroKernel.Fat32.Disk

set_option autoImplicit false

/-! # Directory entries and their names (`fat32.c`, `fat32_dir.c`)

A directory entry is its 32 bytes. Strings of the callers are lists of bytes; the terminating
zero is what follows the last of them.
-/

namespace MicroKernel.Fat32

open MicroKernel.Lib Bytes

/-! ## Entries -/

/-- `struct fat32_dir_entry`. -/
abbrev DirEntry := Fin 32 → UInt8

/-- Its bytes go by their offsets. -/
instance neZero_entrySize : NeZero 32 := ⟨by decide⟩

/-- Entry `j` of an array of entries. -/
def entryAt (b : Bytes) (j : Nat) : DirEntry := fun i => b (32 * j + i)

/-- Assign entry `j` of an array of entries. -/
def setEntry (b : Bytes) (j : Nat) (e : DirEntry) : Bytes := fun x =>
  if h : 32 * j ≤ x ∧ x < 32 * j + 32 then e ⟨x - 32 * j, by omega⟩ else b x

/-- An entry of zeros. -/
def zeroEntry : DirEntry := fun _ => 0

namespace DirEntry

/-- `name[i]`. -/
def name (e : DirEntry) (i : Nat) : UInt8 := if h : i < 11 then e ⟨i, by omega⟩ else 0

/-- `attr`. -/
def attr (e : DirEntry) : UInt8 := e 11

/-- The slot is the end-of-directory marker. -/
def isEnd (e : DirEntry) : Bool := e 0 == 0x00

/-- The entry is deleted. -/
def isDeleted (e : DirEntry) : Bool := e 0 == 0xE5

/-- The entry is a part of a long file name. -/
def isLfn (e : DirEntry) : Bool := (attr e &&& 0x0F) == 0x0F

/-- The entry is a directory. -/
def isDirectory (e : DirEntry) : Bool := (attr e &&& 0x10) != 0

end DirEntry

/-- `read_start_cluster`. -/
def readStartCluster (e : DirEntry) : Nat :=
  65536 * ((e 20).toNat + 256 * (e 21).toNat) + ((e 26).toNat + 256 * (e 27).toNat)

/-! ## Names -/

/-- `toupper`. -/
def toupper (c : UInt8) : UInt8 := if 0x61 ≤ c ∧ c ≤ 0x7A then c - 0x61 + 0x41 else c

/-- `isalnum`. -/
def isalnum (c : UInt8) : Bool :=
  (0x41 ≤ c && c ≤ 0x5A) || (0x61 ≤ c && c ≤ 0x7A) || (0x30 ≤ c && c ≤ 0x39)

/-- The first loop of `compare_names`, on the `n` characters of the name from `i` on. The result
is the position reached in the string, or `none` for a mismatch. -/
def compareBase (fatName str : Nat → UInt8) : Nat → Nat → Nat → Option Nat
  | 0, _, j => some j
  | n + 1, i, j =>
      if str j = 0 ∨ str j = 0x2E then
        if fatName i ≠ 0x20 then none else compareBase fatName str n (i + 1) j
      else if toupper (fatName i) ≠ toupper (str j) then none
      else compareBase fatName str n (i + 1) (j + 1)

/-- The second loop of `compare_names`, on the extension. -/
def compareExtension (fatName str : Nat → UInt8) : Nat → Nat → Nat → Option Nat
  | 0, _, j => some j
  | n + 1, i, j =>
      if str j = 0 then
        if fatName i ≠ 0x20 then none else compareExtension fatName str n (i + 1) j
      else if toupper (fatName i) ≠ toupper (str j) then none
      else compareExtension fatName str n (i + 1) (j + 1)

/-- `compare_names(fat_name, regular_name) == 0`. -/
def compareNames (fatName : Nat → UInt8) (regularName : List UInt8) : Bool :=
  let str := fun j => regularName.getD j 0
  match compareBase fatName str 8 0 0 with
  | none => false
  | some j =>
      let j := if str j = 0x2E then j + 1 else j
      match compareExtension fatName str 3 8 j with
      | none => false
      | some j => str j == 0

/-- The characters of a part of a name that `convert_to_83_format` copies, at most `n`. -/
def namePart (n : Nat) (chars : List UInt8) : List UInt8 :=
  ((chars.filter isalnum).map toupper).take n

/-- `convert_to_83_format`: the eleven characters. -/
def convertTo83Format (src : List UInt8) : Nat → UInt8 :=
  let src := src.takeWhile (· ≠ 0)
  if src = [0x2E] then fun i => if i = 0 then 0x2E else 0x20
  else if src = [0x2E, 0x2E] then fun i => if i < 2 then 0x2E else 0x20
  else
    let base := namePart 8 (src.takeWhile (· ≠ 0x2E))
    let extension := namePart 3 ((src.dropWhile (· ≠ 0x2E)).drop 1)
    fun i => if i < 8 then base.getD i 0x20 else extension.getD (i - 8) 0x20

/-! ## Creating an entry -/

/-- The time of `set_fat32_time`. -/
def fat32Time (c : Clock) : Nat := (c.hours <<< 11 ||| c.minutes <<< 5 ||| c.seconds / 2) % 2 ^ 16

/-- The date of `set_fat32_time`; years outside 1980 to 2107 are cut. -/
def fat32Date (c : Clock) : Nat :=
  (min (c.year - 1980) 127 <<< 9 ||| c.month <<< 5 ||| c.day) % 2 ^ 16

/-- The entry of `create_directory_entry`, for the three readings of the clock. -/
def newDirectoryEntry (created accessed written : Clock) (nm : List UInt8) (cluster : Nat)
    (attributes : UInt8) : DirEntry :=
  let b : Bytes := fun x => if x < 11 then convertTo83Format nm x else 0
  let b := store16 b 20 (cluster / 65536 % 65536)
  let b := store16 b 26 (cluster % 65536)
  let b := store8 b 11 attributes
  let b := store16 b 14 (fat32Time created)
  let b := store16 b 16 (fat32Date created)
  let b := store16 b 18 (fat32Date accessed)
  let b := store16 b 22 (fat32Time written)
  let b := store16 b 24 (fat32Date written)
  let b := store8 b 13 0
  entryAt b 0

/-- `create_directory_entry`. -/
def createDirectoryEntry (nm : List UInt8) (cluster : Nat) (attributes : UInt8) : Io DirEntry := do
  let created ← Prog.ask fun e => e.clock (.store 0 :: e.path)
  let accessed ← Prog.ask fun e => e.clock (.store 1 :: e.path)
  let written ← Prog.ask fun e => e.clock (.store 2 :: e.path)
  return newDirectoryEntry created accessed written nm cluster attributes

/-! ## What a new entry holds -/

section newDirectoryEntry

variable (created accessed written : Clock) (nm : List UInt8) (cluster : Nat) (attributes : UInt8)

@[simp] theorem attr_newDirectoryEntry :
    (newDirectoryEntry created accessed written nm cluster attributes).attr = attributes := rfl

theorem name_newDirectoryEntry {i : Nat} (hi : i < 11) :
    DirEntry.name (newDirectoryEntry created accessed written nm cluster attributes) i
      = convertTo83Format nm i := by
  unfold DirEntry.name newDirectoryEntry entryAt
  rw [dif_pos hi]
  dsimp only
  rw [Nat.mul_zero, Nat.zero_add, store8_ne _ _ (by omega), store16_outside _ _ (by omega),
    store16_outside _ _ (by omega), store16_outside _ _ (by omega),
    store16_outside _ _ (by omega), store16_outside _ _ (by omega), store8_ne _ _ (by omega),
    store16_outside _ _ (by omega), store16_outside _ _ (by omega), if_pos hi]

theorem readStartCluster_newDirectoryEntry (hc : cluster < 2 ^ 32) :
    readStartCluster (newDirectoryEntry created accessed written nm cluster attributes)
      = cluster := by
  have h20 : newDirectoryEntry created accessed written nm cluster attributes 20
      = UInt8.ofNat (cluster / 65536 % 65536) := by
    simp [newDirectoryEntry, entryAt, store8, store16]
  have h21 : newDirectoryEntry created accessed written nm cluster attributes 21
      = UInt8.ofNat (cluster / 65536 % 65536 / 256) := by
    simp [newDirectoryEntry, entryAt, store8, store16]
  have h26 : newDirectoryEntry created accessed written nm cluster attributes 26
      = UInt8.ofNat (cluster % 65536) := by
    simp [newDirectoryEntry, entryAt, store8, store16]
  have h27 : newDirectoryEntry created accessed written nm cluster attributes 27
      = UInt8.ofNat (cluster % 65536 / 256) := by
    simp [newDirectoryEntry, entryAt, store8, store16]
  unfold readStartCluster
  rw [h20, h21, h26, h27]
  simp only [UInt8.toNat_ofNat']
  omega

theorem namePart_getD {n : Nat} (chars : List UInt8) (i : Nat) :
    (namePart n chars).getD i 0x20 = 0x20 ∨
      ∃ c, isalnum c = true ∧ (namePart n chars).getD i 0x20 = toupper c := by
  by_cases hi : i < (namePart n chars).length
  · right
    have hmem : (namePart n chars).getD i 0x20 ∈ namePart n chars := by
      rw [List.getD_eq_getElem?_getD, List.getElem?_eq_getElem hi]
      exact List.getElem_mem hi
    have hmem' := List.mem_of_mem_take hmem
    rw [List.mem_map] at hmem'
    obtain ⟨c, hc, he⟩ := hmem'
    exact ⟨c, (List.mem_filter.mp hc).2, he.symm⟩
  · left
    rw [List.getD_eq_getElem?_getD, List.getElem?_eq_none (by omega)]
    rfl

theorem toupper_toNat (c : UInt8) :
    (toupper c).toNat = if 0x61 ≤ c.toNat ∧ c.toNat ≤ 0x7A then c.toNat - 0x20 else c.toNat := by
  unfold toupper
  simp only [UInt8.le_iff_toNat_le, UInt8.reduceToNat]
  split
  next h =>
    rw [UInt8.toNat_add, UInt8.toNat_sub_of_le _ _ (by simpa [UInt8.le_iff_toNat_le] using h.1)]
    simp only [UInt8.reduceToNat]
    omega
  next => rfl

theorem isalnum_iff (c : UInt8) : isalnum c = true ↔
    (0x41 ≤ c.toNat ∧ c.toNat ≤ 0x5A) ∨ (0x61 ≤ c.toNat ∧ c.toNat ≤ 0x7A) ∨
      (0x30 ≤ c.toNat ∧ c.toNat ≤ 0x39) := by
  simp [isalnum, UInt8.le_iff_toNat_le, or_assoc]

theorem toupper_ne_marker (c : UInt8) (hc : isalnum c = true) : toupper c ≠ 0 ∧ toupper c ≠ 0xE5 := by
  rw [isalnum_iff] at hc
  have h := toupper_toNat c
  constructor
  · intro h0
    rw [h0] at h
    simp only [UInt8.reduceToNat] at h
    split at h <;> omega
  · intro h0
    rw [h0] at h
    simp only [UInt8.reduceToNat] at h
    split at h <;> omega

/-- The first character of a converted name is neither of the two markers. -/
theorem convertTo83Format_zero_ne : convertTo83Format nm 0 ≠ 0 ∧ convertTo83Format nm 0 ≠ 0xE5 := by
  unfold convertTo83Format
  dsimp only
  split
  · decide
  · split
    · decide
    · show (List.getD _ 0 _ ≠ _) ∧ (List.getD _ 0 _ ≠ _)
      rcases namePart_getD (n := 8) ((nm.takeWhile (· ≠ 0)).takeWhile (· ≠ 0x2E)) 0 with
        h | ⟨c, hc, h⟩
      · rw [h]
        decide
      · rw [h]
        exact toupper_ne_marker c hc

theorem newDirectoryEntry_live :
    DirEntry.isEnd (newDirectoryEntry created accessed written nm cluster attributes) = false ∧
      DirEntry.isDeleted (newDirectoryEntry created accessed written nm cluster attributes)
        = false := by
  have hname : ∀ x : DirEntry, x.name 0 = x 0 := fun _ => rfl
  have h0 := name_newDirectoryEntry created accessed written nm cluster attributes (i := 0)
    (by omega)
  rw [hname] at h0
  have h := convertTo83Format_zero_ne nm
  unfold DirEntry.isEnd DirEntry.isDeleted
  rw [h0, beq_eq_false_iff_ne, beq_eq_false_iff_ne]
  exact h

end newDirectoryEntry

end MicroKernel.Fat32
