import MicroKernel.Lib.Bitmap
import MicroKernel.Lib.Bytes
import MicroKernel.Lib.Word

set_option autoImplicit false

/-! # Page directories (`arch/x86/mm/paging.c`)

The page allocator, which hands out the pages of `memory_pool` and marks them in a bitmap, and
the three functions that work on a page directory. Directories and tables lie in the memory of
the machine, and an entry is a 32-bit word.

The fields of an entry are bit-fields, which the target lays out from the least significant bit
on: `present` 1, `rw` 1, `user` 1, `reserved` 2, `accessed` 1, `dirty` 1, `unused` 2, and then the
20 bits of `frame`, or of `table` in a directory.
-/

namespace MicroKernel.Paging

open MicroKernel.Lib Bytes

/-! ## The page allocator -/

/-- `PAGE_SIZE`. -/
def pageSize : Nat := 4096

/-- `MEMORY_POOL_SIZE`. -/
def memoryPoolSize : Nat := 1024 * 1024 * 16

/-- Where the linker puts `memory_pool`: on a page boundary, somewhere behind the start of the
kernel image. -/
structure Layout where
  memoryPool : Nat
  aligned : pageSize ∣ memoryPool
  kernel_lt : 0x00100000 < memoryPool
  room : memoryPool + memoryPoolSize ≤ 2 ^ 32

/-- The memory and `free_page_bitmap`. -/
structure State where
  mem : Bytes
  freePageBitmap : Bitmap

/-- `find_free_page`. -/
def findFreePage (s : State) : Option Nat :=
  s.freePageBitmap.firstClear (memoryPoolSize / pageSize / 32) 0

/-- `allocate_page`: the address of the page, or nothing for `NULL`. -/
def allocatePage (L : Layout) (s : State) : Option (Nat × State) :=
  match findFreePage s with
  | none => none
  | some freePage =>
      some (L.memoryPool + freePage * pageSize,
        { s with freePageBitmap := s.freePageBitmap.set freePage })

/-- `free_page`. -/
def freePage (L : Layout) (s : State) (page : Nat) : State :=
  if page < L.memoryPool ∨ L.memoryPool + memoryPoolSize ≤ page then s
  else { s with freePageBitmap := s.freePageBitmap.clear ((page - L.memoryPool) / pageSize) }

/-! ## Entries -/

/-- A bit-field: its lowest bit and its width. -/
structure BitField where
  pos : Nat
  width : Nat

/-- Read a bit-field of a word. -/
def BitField.get (f : BitField) (w : Nat) : Nat := w / 2 ^ f.pos % 2 ^ f.width

/-- Assign a bit-field of a word. -/
def BitField.set (f : BitField) (w v : Nat) : Nat :=
  w % 2 ^ f.pos + v % 2 ^ f.width * 2 ^ f.pos + w / 2 ^ (f.pos + f.width) * 2 ^ (f.pos + f.width)

/-- `present`. -/
def present : BitField := ⟨0, 1⟩

/-- `rw`. -/
def rw : BitField := ⟨1, 1⟩

/-- `user`. -/
def user : BitField := ⟨2, 1⟩

/-- `frame` of a table entry, and `table` of a directory entry. -/
def frame : BitField := ⟨9, 20⟩

/-- The four assignments of `map_page` to the entry at `a`. -/
def setEntry (m : Bytes) (a frameNumber flags : Nat) : Bytes :=
  let w := load32 m a
  let w := frame.set w frameNumber
  let w := present.set w 1
  let w := rw.set w (flags / 2 % 2)
  let w := user.set w (flags / 4 % 2)
  store32 m a w

/-! ## Directories -/

/-- `create_page_directory`. -/
def createPageDirectory (L : Layout) (s : State) : Option (Nat × State) :=
  match allocatePage L s with
  | none => none
  | some (pd, s) => some (pd, { s with mem := fill s.mem pd pageSize 0 })

/-- The arguments of `map_page` behind the directory. -/
structure MapCall where
  virtualAddress : UInt32
  physicalAddress : UInt32
  flags : UInt32

/-- `dir_index`. -/
def MapCall.dirIndex (c : MapCall) : Nat := c.virtualAddress.toNat / 2 ^ 22 % 1024

/-- `table_index`. -/
def MapCall.tableIndex (c : MapCall) : Nat := c.virtualAddress.toNat / 2 ^ 12 % 1024

/-- The table that `map_page` writes to, which it allocates when the directory has none. -/
def tableOf (L : Layout) (s : State) (pd : Nat) (c : MapCall) : Option (Nat × State) :=
  let a := pd + 4 * c.dirIndex
  if present.get (load32 s.mem a) = 0 then
    match allocatePage L s with
    | none => none
    | some (pt, s) =>
        let m := fill s.mem pt pageSize 0
        some (pt, { s with mem := setEntry m a (pt / 2 ^ 12) c.flags.toNat })
  else some (u32 (frame.get (load32 s.mem a) * 2 ^ 12), s)

/-- `map_page`. Without a page for the table it returns at once. -/
def mapPage (L : Layout) (pd : Nat) (s : State) (c : MapCall) : State :=
  match tableOf L s pd c with
  | none => s
  | some (pt, s) =>
      let m := setEntry s.mem (pt + 4 * c.tableIndex) (c.physicalAddress.toNat / 2 ^ 12)
        c.flags.toNat
      { s with mem := m }

/-- `USER_PAGE_START`. -/
def userPageStart : Nat := 0x400000 / (pageSize * 1024)

/-- The loop of `free_page_directory`, over `n` entries from `i` on. -/
def freeTables (L : Layout) (pd : Nat) : Nat → Nat → State → State
  | 0, _, s => s
  | n + 1, i, s =>
      let entry := load32 s.mem (pd + 4 * i)
      let s := if entry % 2 = 1 then freePage L s (entry / 2 ^ 12 * 2 ^ 12) else s
      freeTables L pd n (i + 1) s

/-- `free_page_directory`. -/
def freePageDirectory (L : Layout) (s : State) (pd : Nat) : State :=
  freePage L (freeTables L pd (1024 - userPageStart) userPageStart s) pd

/-- A sequence of calls of `map_page` on one directory. -/
def mapPages (L : Layout) (pd : Nat) (s : State) (calls : List MapCall) : State :=
  calls.foldl (mapPage L pd) s

end MicroKernel.Paging
