import MicroKernel.Heap.Frames
import MicroKernel.Paging.Tables

set_option autoImplicit false

/-! # The page allocator (`arch/x86/mm/paging.c`)

`allocate_page` and `free_page` over any sequence of calls, next to the frame allocator of
`mm/kmalloc.c`: two bitmaps with words of 32 and of 8 bits and two ways to search them, and the
same behaviour (`allocators_lawful`).
-/

namespace MicroKernel.Paging

open MicroKernel.Lib

/-- A call of the page allocator. -/
inductive PageCall
  | allocate
  | free (page : Nat)

/-- The state after a call, and the pointer that `allocate_page` returns. -/
def PageCall.run (L : Layout) (s : State) : PageCall → State × Option Nat
  | allocate =>
      match allocatePage L s with
      | none => (s, none)
      | some (page, s) => (s, some page)
  | free page => (freePage L s page, none)

/-- The address is outside the pool. -/
def Layout.Outside (L : Layout) (page : Nat) : Prop :=
  page < L.memoryPool ∨ L.memoryPool + memoryPoolSize ≤ page

instance (L : Layout) (page : Nat) : Decidable (L.Outside page) :=
  inferInstanceAs (Decidable (_ ∨ _))

/-- What a call did to the pool of pages. -/
def PageCall.event (L : Layout) : PageCall → Option Nat → PoolEvent
  | allocate, none => .exhausted
  | allocate, some page => .allocated ((page - L.memoryPool) / pageSize)
  | free page, _ =>
      if L.Outside page then .ignored else .freed ((page - L.memoryPool) / pageSize)

/-- The pages whose bit is set. -/
def markedPages (s : State) : Set Nat := {k | s.freePageBitmap.test k = true}

/-- `free_page` of an address outside the pool changes nothing. -/
theorem freePage_outside {L : Layout} {page : Nat} (h : L.Outside page) (s : State) :
    freePage L s page = s := if_pos h

/-- `allocate_page` returns the address of a page of the pool. -/
theorem allocatePage_addr {L : Layout} {s s' : State} {page : Nat}
    (h : allocatePage L s = some (page, s')) :
    pageSize ∣ page ∧ L.memoryPool ≤ page ∧ page + pageSize ≤ L.memoryPool + memoryPoolSize := by
  obtain ⟨k, hk, -, -, rfl, -⟩ := allocatePage_some h
  refine ⟨Nat.dvd_add L.aligned (Dvd.intro_left k rfl), Nat.le_add_right _ _, ?_⟩
  simp only [Layout.page, memoryPoolSize, pageSize]
  omega

theorem page_index (L : Layout) (k : Nat) : (L.page k - L.memoryPool) / pageSize = k := by
  rw [Layout.page, Nat.add_sub_cancel_left]
  exact Nat.mul_div_cancel k (by decide)

/-- **A single call** is lawful for the pages that are marked, and marks what its event says. -/
theorem PageCall.lawful (L : Layout) (s : State) (c : PageCall) :
    (c.event L (c.run L s).2).Lawful 0 (memoryPoolSize / pageSize) (markedPages s) ∧
    SameUnits 0 (memoryPoolSize / pageSize) (markedPages (c.run L s).1)
      ((c.event L (c.run L s).2).apply (markedPages s)) := by
  have hsize : memoryPoolSize / pageSize = 4096 := rfl
  rw [hsize]
  cases c with
  | free page =>
      by_cases hout : L.Outside page
      · simp [run, event, hout, freePage_outside, PoolEvent.Lawful, PoolEvent.apply, SameUnits]
      · have hin : freePage L s page = { s with
            freePageBitmap := s.freePageBitmap.clear ((page - L.memoryPool) / pageSize) } :=
          if_neg hout
        refine ⟨by simp [event, hout, PoolEvent.Lawful], fun j _ _ => ?_⟩
        simp [run, event, hout, hin, PoolEvent.apply, markedPages, Bitmap.test_clear, and_comm]
  | allocate =>
      unfold run
      cases ha : allocatePage L s with
      | none => exact ⟨fun j _ h2 => allocatePage_none ha h2, fun j _ _ => Iff.rfl⟩
      | some r =>
          obtain ⟨page, s'⟩ := r
          obtain ⟨k, hk, hfree, hbelow, rfl, rfl⟩ := allocatePage_some ha
          dsimp only [event]
          rw [page_index]
          refine ⟨⟨⟨Nat.zero_le k, hk, by simp [markedPages, hfree]⟩, ?_⟩, fun j _ _ => ?_⟩
          · rintro j ⟨-, -, h5⟩
            by_contra hlt
            exact h5 (hbelow j (by omega))
          · simp [PoolEvent.apply, markedPages, Bitmap.test_set]

/-- **Both allocators, over every sequence of calls.** From the empty bitmap on, an allocation
returns the lowest page that was not allocated or has been freed since, and fails when there is
none; its address is that of a page of the pool; an address outside of it is not freed. The same
holds of the frames after `initialize_memory_system`, without frame 0 and below `total_memory`. -/
theorem allocators_lawful (L : Layout) (M : Heap.Layout) (mem : Bytes) :
    (∀ calls,
      let t := trace (fun s c => PageCall.run L s c) ⟨mem, fun _ => 0⟩ calls
      LawfulHistory 0 (memoryPoolSize / pageSize) ∅ (t.map fun r => r.1.event L r.2) ∧
      ∀ page, (.allocate, some page) ∈ t → pageSize ∣ page ∧ L.memoryPool ≤ page ∧
        page + pageSize ≤ L.memoryPool + memoryPoolSize) ∧
    (∀ s page, L.Outside page → freePage L s page = s) ∧
    ∀ calls,
      let t := trace (fun s c => Heap.FrameCall.run M s c)
        (Heap.initializeMemorySystem M ⟨mem, 0, 0⟩) calls
      LawfulHistory 1 (M.totalMemory / Heap.frameSize) ∅ (t.map fun r => r.1.event r.2) ∧
      ∀ addr, (.allocate, addr) ∈ t → addr ≠ 0 →
        Heap.frameSize ∣ addr ∧ addr + Heap.frameSize ≤ M.totalMemory := by
  refine ⟨fun calls => ⟨?_, ?_⟩, fun s page h => freePage_outside h s, fun calls => ⟨?_, ?_⟩⟩
  · exact lawful_history markedPages (fun s c _ => c.lawful L s)
      fun j _ _ => by simp [markedPages, Bitmap.test]
  · intro page hmem
    refine of_mem_trace (P := fun c a => c = .allocate → ∀ page, a = some page → pageSize ∣ page ∧
      L.memoryPool ≤ page ∧ page + pageSize ≤ L.memoryPool + memoryPoolSize) ?_ hmem rfl page rfl
    rintro s c rfl page ha
    cases hrun : allocatePage L s with
    | none => simp [PageCall.run, hrun] at ha
    | some r =>
        simp only [PageCall.run, hrun, Option.some.injEq] at ha
        rw [← ha]
        exact allocatePage_addr hrun
  · exact lawful_history Heap.markedFrames (fun s c _ => c.lawful M s)
      (Heap.markedFrames_initialize M mem)
  · intro addr hmem
    refine of_mem_trace (P := fun c a => c = .allocate → a ≠ 0 → Heap.frameSize ∣ a ∧
      a + Heap.frameSize ≤ M.totalMemory) ?_ hmem rfl
    rintro s c rfl hne
    exact Heap.allocateFrame_addr M s hne

end MicroKernel.Paging
