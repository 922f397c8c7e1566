import MicroKernel.Heap.Invariant
import MicroKernel.Lib.Cursor

set_option autoImplicit false

/-! # The memory map of a Multiboot1 loader (`arch/x86/boot/multiboot_parser.c`)

`parse_multiboot1_info` adds up the lengths of the usable regions in `total_memory`, which it takes
for a variable of 64 bits. `mm/kmalloc.c` defines it with 32 bits, and takes the end of the heap to
be at `HEAP_END` however much memory there is. So the sum is right for less than 4 GB, and the heap
lies in the memory of machines with 240 MB or more (`sizesMemory_iff`).
-/

namespace MicroKernel.Boot

open MicroKernel.Lib Bytes

/-- `multiboot1_info_t`, as far as the memory map is concerned. -/
structure Multiboot1Info where
  flags : Nat
  mmapLength : Nat
  mmapAddr : Nat

/-- `total_memory`, and the word behind it. -/
structure Totals where
  totalMemory : Nat
  behind : Nat

/-- `total_memory += length`, on a variable of 64 bits. -/
def Totals.add (t : Totals) (length : Nat) : Totals :=
  let sum := (t.totalMemory + 2 ^ 32 * t.behind + length) % 2 ^ 64
  ⟨sum % 2 ^ 32, sum / 2 ^ 32⟩

/-- Bound on the turns of a loop: a cursor that has made so many has come back to some place. -/
def steps : Nat := 2 ^ 32

/-- `parse_multiboot1_info`. The memory map is no part of the kernel's variables. -/
def parseMultiboot1Info (mem : Bytes) (info : Multiboot1Info) (t : Totals) : Option Totals :=
  if info.flags &&& 0x040 = 0 then some t
  else
    let mmapEnd := u32 (info.mmapAddr + info.mmapLength)
    (cursorLoop (fun mmap => decide (mmap < mmapEnd))
      (fun mmap t =>
        some (if load32 mem (mmap + 20) = 1 then t.add (load64 mem (mmap + 12)) else t))
      (fun mmap => u32 (mmap + load32 mem mmap + 4)) steps info.mmapAddr t).map Prod.fst

/-! ## Memory maps -/

/-- `multiboot1_mmap_entry_t` in a memory map. Its `size` does not count itself. -/
structure MmapEntry where
  size : Nat
  length : Nat
  type : Nat
  size_ge : 20 ≤ size

namespace MmapEntry

/-- The bytes that the entry adds to the memory in use. -/
def usable (x : MmapEntry) : Nat := if x.type = 1 then x.length else 0

/-- The place behind the entry at `p`. -/
def after (p : Nat) (x : MmapEntry) : Nat := p + x.size + 4

/-- The entry is at `p`. -/
def At (mem : Bytes) (p : Nat) (x : MmapEntry) : Prop :=
  load32 mem p = x.size ∧ load64 mem (p + 12) = x.length ∧ load32 mem (p + 20) = x.type

instance (mem : Bytes) (p : Nat) (x : MmapEntry) : Decidable (x.At mem p) :=
  inferInstanceAs (Decidable (_ ∧ _ ∧ _))

theorem lt_after (p : Nat) (x : MmapEntry) : p < after p x := by
  unfold after
  omega

end MmapEntry

/-- The bytes of memory in use, after the map. -/
def usableMemory (entries : List MmapEntry) : Nat := (entries.map MmapEntry.usable).sum

/-- The loader has put the entries into the memory, one behind the other. -/
structure Multiboot1Info.HasMap (info : Multiboot1Info) (mem : Bytes) (entries : List MmapEntry) :
    Prop where
  flag : info.flags &&& 0x040 ≠ 0
  laid : ∀ p x, (p, x) ∈ places MmapEntry.after info.mmapAddr entries → x.At mem p
  length : placesEnd MmapEntry.after info.mmapAddr entries = info.mmapAddr + info.mmapLength
  below : info.mmapAddr + info.mmapLength < 2 ^ 32

/-- An entry is counted if it is in use. -/
def Totals.count (t : Totals) (x : MmapEntry) : Totals := if x.type = 1 then t.add x.length else t

section walk

variable {mem : Bytes} {info : Multiboot1Info} {entries : List MmapEntry} {t : Totals}

/-- **The walk** along a memory map ends, and counts all of its entries. -/
theorem run_parseMultiboot1Info (h : info.HasMap mem entries) (t : Totals) :
    parseMultiboot1Info mem info t = some (entries.foldl Totals.count t) := by
  have hend : u32 (info.mmapAddr + info.mmapLength) = info.mmapAddr + info.mmapLength :=
    u32_eq_self h.below
  have hturn : ∀ p x, (p, x) ∈ places MmapEntry.after info.mmapAddr entries →
      decide (p < info.mmapAddr + info.mmapLength) = true ∧
        u32 (p + load32 mem p + 4) = MmapEntry.after p x ∧
        ∀ t : Totals, some (if load32 mem (p + 20) = 1 then t.add (load64 mem (p + 12)) else t)
          = some (t.count x) := by
    intro p x hx
    obtain ⟨hsize, hlength, htype⟩ := h.laid p x hx
    have hlt := MmapEntry.lt_after p x
    have hle := (places_bounds MmapEntry.lt_after hx).2
    have hbelow := h.below
    rw [h.length] at hle
    refine ⟨decide_eq_true (by omega), ?_, fun t => ?_⟩
    · rw [hsize]
      exact u32_eq_self (by unfold MmapEntry.after at hle; omega)
    · rw [htype, hlength]
      rfl
  have hlen := length_le_placesEnd MmapEntry.lt_after info.mmapAddr entries
  rw [h.length] at hlen
  have hbelow := h.below
  unfold parseMultiboot1Info
  rw [if_neg h.flag]
  dsimp only
  rw [hend]
  exact congrArg (Option.map Prod.fst) (cursorLoop_places hturn (by rw [h.length]; simp)
    (by unfold steps; omega))

theorem totalMemory_count (x : MmapEntry) {t : Totals} (ht : t.totalMemory < 2 ^ 32) :
    (t.count x).totalMemory = (t.totalMemory + x.usable) % 2 ^ 32 := by
  unfold Totals.count MmapEntry.usable Totals.add
  split
  · dsimp only
    omega
  · exact (Nat.mod_eq_of_lt ht).symm

theorem totalMemory_foldl (entries : List MmapEntry) (t : Totals) (ht : t.totalMemory < 2 ^ 32) :
    (entries.foldl Totals.count t).totalMemory
      = (t.totalMemory + usableMemory entries) % 2 ^ 32 :=
  foldl_add_mod (by decide) Totals.totalMemory MmapEntry.usable
    (fun _ x h => totalMemory_count x h) entries ht

end walk

/-! ## Sizing the memory -/

/-- The bitmap and the heap that `initialize_memory_system` has set up in the state `s` lie below
`total`. -/
structure HeapBelow (L : Heap.Layout) (s : Heap.State) (total : Nat) : Prop where
  bitmap : s.frameBitmap + L.bitmapSize ≤ total
  heap : s.freeList + Heap.blockSize + Heap.sizeAt s.mem s.freeList ≤ total

/-- The boot sizes the memory rightly: the walk ends, `total_memory` is then the number `total`,
and what `initialize_memory_system` sets up, if anything, lies below it. The word behind
`total_memory` and the rest of the memory hold anything. -/
def SizesMemory (mem : Bytes) (info : Multiboot1Info) (total : Nat) : Prop :=
  ∀ behind, ∃ t, parseMultiboot1Info mem info ⟨0, behind⟩ = some t ∧ t.totalMemory = total ∧
    ∀ (L : Heap.Layout) (mem' : Bytes), L.totalMemory = t.totalMemory →
      (Heap.initializeMemorySystem L ⟨mem', 0, 0⟩).freeList ≠ 0 →
      HeapBelow L (Heap.initializeMemorySystem L ⟨mem', 0, 0⟩) total

section sizes

variable {mem : Bytes} {info : Multiboot1Info} {entries : List MmapEntry} {t : Totals}

/-- The heap that is set up ends at `HEAP_END`. -/
theorem heapBelow_iff (L : Heap.Layout) (hL : L.totalMemory ≠ 0) (mem : Bytes) (total : Nat) :
    HeapBelow L (Heap.initializeMemorySystem L ⟨mem, 0, 0⟩) total ↔ Heap.heapEnd ≤ total := by
  obtain ⟨hfree, hsize, -⟩ := (Heap.inv_boot L hL mem).seg
  have hbounds := L.freelistStart_bounds.2
  have hstop : (Heap.initializeMemorySystem L ⟨mem, 0, 0⟩).freeList + Heap.blockSize
      + Heap.sizeAt (Heap.initializeMemorySystem L ⟨mem, 0, 0⟩).mem
        (Heap.initializeMemorySystem L ⟨mem, 0, 0⟩).freeList = Heap.heapEnd := by
    change (Heap.initializeMemorySystem L ⟨mem, 0, 0⟩).freeList = L.freelistStart at hfree
    change Heap.sizeAt (Heap.initializeMemorySystem L ⟨mem, 0, 0⟩).mem
      (Heap.initializeMemorySystem L ⟨mem, 0, 0⟩).freeList = _ at hsize
    rw [hsize, hfree]
    dsimp only
    omega
  have hbitmap : (Heap.initializeMemorySystem L ⟨mem, 0, 0⟩).frameBitmap + L.bitmapSize
      = L.freelistStart := by
    simp [Heap.initializeMemorySystem, if_neg hL, Heap.setFrame, Heap.Layout.freelistStart]
  constructor
  · intro h
    exact hstop ▸ h.heap
  · intro h
    exact ⟨by omega, by omega⟩

theorem totalMemory_walk (entries : List MmapEntry) (behind : Nat) :
    (entries.foldl Totals.count ⟨0, behind⟩).totalMemory = usableMemory entries % 2 ^ 32 := by
  rw [totalMemory_foldl _ _ (by simp), Nat.zero_add]

theorem SizesMemory.lt (hsizes : SizesMemory mem info (usableMemory entries))
    (h : info.HasMap mem entries) : usableMemory entries < 2 ^ 32 := by
  obtain ⟨t, hrun, hsum, -⟩ := hsizes 0
  rw [run_parseMultiboot1Info h, Option.some.injEq] at hrun
  rw [← hrun, totalMemory_walk] at hsum
  omega

theorem SizesMemory.reaches (hsizes : SizesMemory mem info (usableMemory entries))
    (h : info.HasMap mem entries) :
    usableMemory entries = 0 ∨ Heap.heapEnd ≤ usableMemory entries := by
  have hlt := hsizes.lt h
  obtain ⟨t, hrun, hsum, hbelow⟩ := hsizes 0
  rcases Nat.eq_zero_or_pos (usableMemory entries) with hzero | hpos
  · exact Or.inl hzero
  · -- a kernel that ends at 2 MB
    let L : Heap.Layout := ⟨0x200000, usableMemory entries, by decide, by decide, hlt⟩
    have hL : L.totalMemory ≠ 0 := Nat.pos_iff_ne_zero.mp hpos
    have hset : (Heap.initializeMemorySystem L ⟨mem, 0, 0⟩).freeList = L.freelistStart :=
      (Heap.inv_boot L hL mem).seg.1
    have hstart := L.freelistStart_bounds.1
    exact Or.inr ((heapBelow_iff L hL mem _).mp (hbelow L mem hsum.symm (by omega)))

/-- **Boot memory sizing** is right just when the memory in use is less than 4 GB, and reaches up to
`HEAP_END` if there is any. -/
theorem sizesMemory_iff (h : info.HasMap mem entries) :
    SizesMemory mem info (usableMemory entries) ↔
      usableMemory entries < 2 ^ 32 ∧
        (usableMemory entries = 0 ∨ Heap.heapEnd ≤ usableMemory entries) := by
  constructor
  · exact fun hsizes => ⟨hsizes.lt h, hsizes.reaches h⟩
  · rintro ⟨hlt, hreach⟩ behind
    have hsum := (totalMemory_walk entries behind).trans (Nat.mod_eq_of_lt hlt)
    refine ⟨_, run_parseMultiboot1Info h _, hsum, fun L mem' hL hset => ?_⟩
    have hne : L.totalMemory ≠ 0 := by
      intro hzero
      rw [Heap.initializeMemorySystem, if_pos hzero] at hset
      exact hset rfl
    refine (heapBelow_iff L hne mem' _).mpr (hreach.resolve_left ?_)
    rwa [hL, hsum] at hne

end sizes

/-! ### Machines with one region of memory -/

/-- An entry for a usable region. -/
def regionEntry (length : Nat) : MmapEntry := ⟨20, length, 1, by decide⟩

/-- A memory with a map of that entry. -/
def regionMemory (length : Nat) : Bytes :=
  store32 (store32 (store32 (store32 (fun _ => 0) 0x1000 20) 0x100C length) 0x1010 (length / 2 ^ 32))
    0x1014 1

/-- Where the loader says that the map is. -/
def regionInfo : Multiboot1Info := ⟨0x040, 24, 0x1000⟩

theorem regionInfo_hasMap {length : Nat} (h : (regionEntry length).At (regionMemory length) 0x1000) :
    regionInfo.HasMap (regionMemory length) [regionEntry length] where
  flag := by decide
  laid := by
    intro p x hx
    obtain ⟨rfl, rfl⟩ := Prod.mk.inj (List.mem_singleton.mp hx)
    exact h
  length := rfl
  below := by decide

/-- The map of a machine with 512 MB: the memory below the first megabyte, a reserved region in an entry
with an attribute word, and the memory above. -/
def pcEntries : List MmapEntry :=
  [⟨20, 0x9FC00, 1, by decide⟩, ⟨24, 0x60400, 2, by decide⟩, ⟨20, 0x1FF00000, 1, by decide⟩]

/-- A memory with that map. -/
def pcMemory : Bytes :=
  [(0x1000, 20), (0x100C, 0x9FC00), (0x1014, 1), (0x1018, 24), (0x1024, 0x60400), (0x102C, 2),
    (0x1034, 20), (0x1040, 0x1FF00000), (0x1048, 1)].foldl (fun mem s => store32 mem s.1 s.2) fun _ => 0

/-- Where the loader says that it is. -/
def pcInfo : Multiboot1Info := ⟨0x040, 76, 0x1000⟩

/-- The reserved region is not counted. -/
theorem sizesMemory_iff_halfGiga : SizesMemory pcMemory pcInfo 0x1FF9FC00 := by
  have hmap : pcInfo.HasMap pcMemory pcEntries := by
    refine ⟨by decide, fun p x hx => ?_, rfl, by decide⟩
    rcases List.mem_cons.mp hx with heq | hx
    · obtain ⟨rfl, rfl⟩ := Prod.mk.inj heq
      decide
    rcases List.mem_cons.mp hx with heq | hx
    · obtain ⟨rfl, rfl⟩ := Prod.mk.inj heq
      decide
    · obtain ⟨rfl, rfl⟩ := Prod.mk.inj (List.mem_singleton.mp hx)
      decide
  exact (sizesMemory_iff hmap).mpr ⟨by decide, by decide⟩

/-- With 128 MB the heap ends behind the memory, and of 5 GB the kernel takes notice of 1 GB. -/
theorem not_sizesMemory :
    ¬ SizesMemory (regionMemory 0x8000000) regionInfo (usableMemory [regionEntry 0x8000000]) ∧
      ¬ SizesMemory (regionMemory 0x140000000) regionInfo
        (usableMemory [regionEntry 0x140000000]) := by
  constructor
  · intro hsizes
    have hreaches := hsizes.reaches (regionInfo_hasMap (by decide))
    exact absurd hreaches (by decide)
  · intro hsizes
    have hlt := hsizes.lt (regionInfo_hasMap (by decide))
    exact absurd hlt (by decide)

end MicroKernel.Boot
