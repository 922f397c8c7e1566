import MicroKernel.Heap.Invariant

set_option autoImplicit false

/-! # Freeing everything

`k_free` merges a block with one list neighbour on each side. That is enough to get the initial
heap back: no two neighbours are free at any time (`Inv.coalesced`), so when no block is used
any more there is only one, and it is the whole region. The order of the calls of `k_free` plays
no role.
-/

namespace MicroKernel.Heap

open MicroKernel.Lib

/-- `k_free` of one pointer after the other. -/
def freeAll : State → List Nat → Option State
  | s, [] => some s
  | s, ptr :: ptrs => (kFree s ptr).bind fun s => freeAll s ptrs

/-- The block that `initialize_memory_system` makes. -/
def initialBlock (L : Layout) : Block where
  addr := L.freelistStart
  size := heapEnd - L.freelistStart - blockSize
  free := true

/-- Without live pointers the heap is the initial block. -/
theorem Inv.initial {L : Layout} {r : Run} {bs : List Block} (h : Inv L r bs) (hr : r.live = []) :
    bs = [initialBlock L] := by
  have hb := L.freelistStart_bounds
  simp only [blockSize] at hb
  refine h.tiled.eq_singleton h.coalesced (fun b hb => ?_) (by omega)
  -- a used block would have an owner
  by_contra hf
  obtain ⟨e, he, -⟩ := h.owned.owner b hb (by simpa using hf)
  rw [hr] at he
  cases he

/-- Freeing a pointer leaves the other live pointers live. -/
theorem map_drop {live : List (Nat × Nat)} {ptr : Nat} {ptrs : List Nat}
    (hnd : (live.map Prod.fst).Nodup) (hp : (ptr :: ptrs).Perm (live.map Prod.fst)) :
    ptrs.Perm ((drop live ptr).map Prod.fst) := by
  have herase : (drop live ptr).map Prod.fst = (live.map Prod.fst).erase ptr := by
    rw [hnd.erase_eq_filter, drop, List.filter_map]
    congr 1
    refine List.filter_congr fun e _ => ?_
    simp [bne, Bool.beq_eq_decide_eq]
  rw [herase]
  have h := hp.erase ptr
  rwa [List.erase_cons_head] at h

/-- Freeing all live pointers returns, and keeps the invariant. -/
theorem Inv.freeAll {L : Layout} {r : Run} {bs : List Block} (h : Inv L r bs) {ptrs : List Nat}
    (hp : ptrs.Perm (r.live.map Prod.fst)) :
    ∃ s, MicroKernel.Heap.freeAll r.heap ptrs = some s ∧ Inv L ⟨s, []⟩ [initialBlock L] := by
  -- the list of pointers gets shorter, and with it the live pointers
  induction ptrs generalizing r bs with
  | nil =>
      have hr : r.live = [] := List.map_eq_nil_iff.mp hp.nil_eq.symm
      have hi := h.initial hr
      subst hi
      obtain ⟨s, live⟩ := r
      replace hr : live = [] := hr
      subst hr
      exact ⟨s, rfl, h⟩
  | cons ptr ptrs ih =>
      have hl : ptr ∈ r.live.map Prod.fst := hp.subset List.mem_cons_self
      obtain ⟨s₁, bs₁, hk, h₁, -⟩ := h.free hl
      obtain ⟨s, hs, hi⟩ := ih h₁ (map_drop h.owned.nodup hp)
      refine ⟨s, ?_, hi⟩
      rw [MicroKernel.Heap.freeAll, hk, Option.bind_some]
      exact hs

/-- The list of a heap that is the initial block. -/
theorem Inv.walk_initial {L : Layout} {r : Run} (h : Inv L r [initialBlock L]) :
    r.heap.freeList = L.freelistStart ∧
      walk r.heap.mem steps r.heap.freeList = some [initialBlock L] :=
  ⟨h.seg.1, walk_eq h.seg h.placed.pos h.placed.length_lt⟩

/-- **Full coalescing.** From every state that calls served from the free list can reach, freeing
all live pointers, in whatever order, returns and leaves the list that
`initialize_memory_system` made: one free block, the whole region. -/
theorem freeAll_coalesces (L : Layout) (hL : L.totalMemory ≠ 0) (mem : Bytes) (r : Run)
    (h : Relation.ReflTransGen (ServedStep L) (boot L mem) r) (order : List Nat)
    (ho : order.Perm (r.live.map Prod.fst)) :
    ∃ s, freeAll r.heap order = some s ∧
      s.freeList = (boot L mem).heap.freeList ∧
      walk s.mem steps s.freeList = some [initialBlock L] ∧
      walk (boot L mem).heap.mem steps (boot L mem).heap.freeList = some [initialBlock L] := by
  obtain ⟨bs, hi⟩ := inv_reachable hL h
  obtain ⟨s, hs, hfin⟩ := hi.freeAll ho
  have h0 : Inv L (boot L mem) [initialBlock L] := inv_boot L hL mem
  refine ⟨s, hs, ?_, hfin.walk_initial.2, h0.walk_initial.2⟩
  rw [h0.walk_initial.1]
  exact hfin.walk_initial.1

/-- Three blocks, the last of them freed first and the first of them last. -/
theorem freeAll_coalesces_three :
    ∃ r s, Relation.ReflTransGen (ServedStep layout512) (boot layout512 fun _ => 0) r ∧
      r.live.map Prod.fst = [0x0020408c, 0x0020407c, 0x0020400c] ∧
      freeAll r.heap [0x0020408c, 0x0020400c, 0x0020407c] = some s ∧
      walk s.mem steps s.freeList = some [initialBlock layout512] := by
  have h1 : Relation.ReflTransGen (ServedStep layout512) (boot layout512 fun _ => 0) _ :=
    .single ⟨.malloc 100, trivial, ⟨0x00204000, by decide, rfl⟩, rfl⟩
  have h2 := h1.tail ⟨.malloc 4, trivial, ⟨0x00204070, by decide, rfl⟩, rfl⟩
  have h3 := h2.tail ⟨.malloc 0, trivial, ⟨0x00204080, by decide, rfl⟩, rfl⟩
  obtain ⟨s, hs, -, hw, -⟩ := freeAll_coalesces layout512 (by decide) _ _ h3
    [0x0020408c, 0x0020400c, 0x0020407c] (by decide)
  exact ⟨_, s, h3, rfl, hs, hw⟩

end MicroKernel.Heap
