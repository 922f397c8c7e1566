import MicroKernel.Lib.Bytes
import MicroKernel.Lib.Word
import MicroKernel.Libc.Memmove

set_option autoImplicit false

/-! # The kernel heap (`mm/kmalloc.c`)

`k_malloc`, `k_free` and `k_realloc` over the byte store of the machine. The block list is
intrusive: the header of a block is three words at its address (`size`, `free`, `next`), and
every function below reads and writes these words where the C code does, in the same order.
The frame bitmap is in the same memory, at `frame_bitmap`.

A loop that follows `next` pointers is a recursion with `steps` as its bound. No list of
distinct blocks has that many members in a 32-bit address space, so `none` is a walk that
never ends. The spinlock and the messages have no effect on the heap and are left out.
-/

namespace MicroKernel.Heap

open MicroKernel.Lib MicroKernel.Libc Bytes

/-! ## Constants and layout -/

/-- `BLOCK_SIZE`: the header of a block, three words. -/
def blockSize : Nat := 12

/-- `HEAP_END`. -/
def heapEnd : Nat := 0x0f000000

/-- `FRAME_SIZE`. -/
def frameSize : Nat := 4096

/-- Where the linker script puts the kernel image. -/
def kernelBase : Nat := 0x00100000

/-- What the heap is told about the machine: the linker symbol `_kernel_end`, which the linker
script asserts to lie inside `kernel_ram`, and the 32-bit `total_memory` of the boot code. -/
structure Layout where
  kernelEnd : Nat
  totalMemory : Nat
  kernelBase_lt : kernelBase < kernelEnd
  kernelEnd_le : kernelEnd ≤ 0x02100000
  totalMemory_lt : totalMemory < 2 ^ 32

/-- The memory and the heap's two global pointers. -/
structure State where
  mem : Bytes
  freeList : Nat
  frameBitmap : Nat

/-- Bound on the length of a walk along `next`. -/
def steps : Nat := 2 ^ 32

/-- The word `size` of the block at `b`. -/
def sizeAt (m : Bytes) (b : Nat) : Nat := load32 m b

/-- The word `free` of the block at `b`. -/
def freeAt (m : Bytes) (b : Nat) : Nat := load32 m (b + 4)

/-- The word `next` of the block at `b`; `0` is `NULL`. -/
def nextAt (m : Bytes) (b : Nat) : Nat := load32 m (b + 8)

/-- `ALIGN_UP(addr, 16)`. -/
def alignUp16 (addr : Nat) : Nat := (addr + 15) / 16 * 16

/-! ## Frames -/

/-- `test_frame`. -/
def testFrame (s : State) (frame : Nat) : Bool :=
  (s.mem (s.frameBitmap + frame / 8)).toNat.testBit (frame % 8)

/-- `set_frame`. -/
def setFrame (s : State) (frame : Nat) : State :=
  let a := s.frameBitmap + frame / 8
  { s with mem := store8 s.mem a (UInt8.ofNat ((s.mem a).toNat ||| 2 ^ (frame % 8))) }

/-- The loop of `allocate_frame`: the first clear frame among `i, i + 1, …`, `n` of them. -/
def scanFrames (s : State) : Nat → Nat → Option Nat
  | 0, _ => none
  | n + 1, i => if testFrame s i then scanFrames s n (i + 1) else some i

/-- `allocate_frame`: the address of the lowest clear frame from frame 1 on, now set, or `0`
when there is none. -/
def allocateFrame (L : Layout) (s : State) : State × Nat :=
  match scanFrames s (L.totalMemory / frameSize - 1) 1 with
  | some i => (setFrame s i, i * frameSize)
  | none => (s, 0)

/-! ## Initialisation -/

/-- Where `initialize_memory_system` puts the frame bitmap. -/
def Layout.heapStart (L : Layout) : Nat := alignUp16 L.kernelEnd

/-- The bytes of the frame bitmap, rounded up to 16. -/
def Layout.bitmapSize (L : Layout) : Nat := alignUp16 ((L.totalMemory / frameSize + 7) / 8)

/-- Where the first block is. -/
def Layout.freelistStart (L : Layout) : Nat := L.heapStart + L.bitmapSize

/-- `initialize_memory_system`. -/
def initializeMemorySystem (L : Layout) (s : State) : State :=
  if L.totalMemory = 0 then s
  else
    let s := { s with frameBitmap := L.heapStart, mem := fill s.mem L.heapStart L.bitmapSize 0 }
    let s := setFrame s 0
    let b := L.freelistStart
    let m := store32 s.mem b (usub (usub heapEnd b) blockSize)
    let m := store32 m (b + 4) 1
    let m := store32 m (b + 8) 0
    { s with mem := m, freeList := b }

/-! ## `k_malloc` -/

/-- The search of `k_malloc`: the first free block of at least `size` bytes, or `0`. -/
def findFit (m : Bytes) (size : Nat) : Nat → Nat → Option Nat
  | 0, _ => none
  | k + 1, current =>
      if current = 0 then some 0
      else if freeAt m current ≠ 0 ∧ size ≤ sizeAt m current then some current
      else findFit m size k (nextAt m current)

/-- Give out the block `current`, splitting it when there is room for another header. -/
def takeBlock (m : Bytes) (size current : Nat) : Bytes :=
  let m := store32 m (current + 4) 0
  if u32 (size + blockSize) < sizeAt m current then
    let newBlock := u32 (current + blockSize + size)
    let m := store32 m newBlock (usub (usub (sizeAt m current) size) blockSize)
    let m := store32 m (newBlock + 4) 1
    let m := store32 m (newBlock + 8) (nextAt m current)
    let m := store32 m current size
    store32 m (current + 8) newBlock
  else m

/-- The last block of the list, from `last` on. -/
def findLast (m : Bytes) : Nat → Nat → Option Nat
  | 0, _ => none
  | k + 1, last => if nextAt m last = 0 then some last else findLast m k (nextAt m last)

/-- Make the frame at `current` a free block and hang it behind the last block. -/
def appendFrame (s : State) (current : Nat) : Option State :=
  let m := store32 s.mem current (frameSize - blockSize)
  let m := store32 m (current + 4) 1
  let m := store32 m (current + 8) 0
  (findLast m steps s.freeList).map fun last => { s with mem := store32 m (last + 8) current }

/-- `k_malloc`, its recursive call bounded by the first argument. -/
def kMallocRec (L : Layout) (size : Nat) : Nat → State → Option (State × Nat)
  | 0, _ => none
  | k + 1, s =>
      (findFit s.mem size steps s.freeList).bind fun current =>
        if current ≠ 0 then
          some ({ s with mem := takeBlock s.mem size current }, u32 (current + blockSize))
        else
          let r := allocateFrame L s
          if r.2 = 0 then some (r.1, 0)
          else (appendFrame r.1 r.2).bind (kMallocRec L size k)

/-- `k_malloc(size)`: the state afterwards and the pointer returned. -/
def kMalloc (L : Layout) (s : State) (size : Nat) : Option (State × Nat) :=
  kMallocRec L size steps s

/-! ## `k_free` -/

/-- The second loop of `k_free`: the first free block whose `next` is `block`, or `0`. -/
def findPrev (m : Bytes) (block : Nat) : Nat → Nat → Option Nat
  | 0, _ => none
  | k + 1, current =>
      if current = 0 then some 0
      else if nextAt m current = block ∧ freeAt m current ≠ 0 then some current
      else findPrev m block k (nextAt m current)

/-- Merge the block `b` with its successor in the list. -/
def mergeWithNext (m : Bytes) (b : Nat) : Bytes :=
  let n := nextAt m b
  let m := store32 m b (sizeAt m b + (sizeAt m n + blockSize))
  store32 m (b + 8) (nextAt m n)

/-- `k_free(ptr)`. -/
def kFree (s : State) (ptr : Nat) : Option State :=
  if ptr = 0 then some s
  else
    let block := usub ptr blockSize
    if freeAt s.mem block ≠ 0 then some s
    else
      let m := store32 s.mem (block + 4) 1
      let m := if nextAt m block ≠ 0 ∧ freeAt m (nextAt m block) ≠ 0 then mergeWithNext m block
        else m
      (findPrev m block steps s.freeList).map fun current =>
        { s with mem := if current ≠ 0 then mergeWithNext m current else m }

/-! ## `k_realloc` -/

/-- `k_realloc(ptr, new_size)`. -/
def kRealloc (L : Layout) (s : State) (ptr newSize : Nat) : Option (State × Nat) :=
  if ptr = 0 then kMalloc L s newSize
  else if newSize = 0 then (kFree s ptr).map fun s => (s, 0)
  else
    let block := usub ptr blockSize
    let oldSize := sizeAt s.mem block
    if newSize ≤ oldSize then some (s, ptr)
    else
      (kMalloc L s newSize).bind fun r =>
        if r.2 = 0 then some (r.1, 0)
        else
          let copySize := if oldSize < newSize then oldSize else newSize
          (kFree { r.1 with mem := memmove r.1.mem r.2 ptr copySize } ptr).map fun s => (s, r.2)

end MicroKernel.Heap
