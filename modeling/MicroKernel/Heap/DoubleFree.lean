import MicroKernel.Heap.Coalesce
import MicroKernel.Heap.Use

set_option autoImplicit false

/-! # Double frees

The header of a block that has been merged away is no longer in the list, but nobody overwrites
it before the next `k_malloc`: a release writes the flag of the block it frees and headers that
are in the list. So the header of a freed block, dead or not, keeps a flag that is set
(`FreedAt`), and `k_free` of the same pointer leaves the heap alone.
-/

namespace MicroKernel.Heap

open MicroKernel.Lib Bytes

/-! ## Headers of freed blocks -/

/-- At `a` there is the header of a block that has been freed: its flag is set, and it is the
header of a free block or lies in the payload of one. -/
def FreedAt (m : Bytes) (bs : List Block) (a : Nat) : Prop :=
  freeAt m a ≠ 0 ∧ ∃ c d : Block, c.addr = a ∧ d ∈ bs ∧ d.free = true ∧ c.Within blockSize d

section

variable {m m' : Bytes} {lo hi : Nat} {pre post : List Block} {b : Block}

/-- The block just released. -/
theorem FreeWrites.freedAt_self (h : FreeWrites m m' pre b)
    (ht : Tiled blockSize lo hi (pre ++ b :: post)) (hu : b.free = false) :
    FreedAt m' (release blockSize b.addr (pre ++ b :: post)) b.addr := by
  obtain ⟨d, hd, hdf, hw⟩ := ht.release_covers (c := { b with free := true })
    (show 0 < blockSize by decide) hu (by simp) rfl
  refine ⟨?_, { b with free := true }, d, rfl, hd, hdf, hw⟩
  rw [h.flag]
  exact Nat.one_ne_zero

/-- The blocks released before it. -/
theorem FreeWrites.freedAt (h : FreeWrites m m' pre b) (hp : Placed (pre ++ b :: post))
    (ht : Tiled blockSize lo hi (pre ++ b :: post)) (hu : b.free = false) {a : Nat}
    (ha : FreedAt m (pre ++ b :: post) a) :
    FreedAt m' (release blockSize b.addr (pre ++ b :: post)) a := by
  obtain ⟨hflag, c, d, rfl, hd, hdf, hcd⟩ := ha
  have hsymm : Std.Symm (Block.Apart blockSize) := ⟨fun x y hxy => Or.symm hxy⟩
  have hdb : d ≠ b := by
    rintro rfl
    exact absurd hdf (by simp [hu])
  have hapb := hp.apart.forall hd (by simp) hdb
  obtain ⟨haddr, hstop⟩ := hcd
  simp only [Block.Apart, Block.stop] at hapb hstop
  -- `c` lies in the free block `d`, and only the flag of `b` is written
  have hkeep : freeAt m' c.addr = freeAt m c.addr := by
    refine h.freeAt_eq (by omega) fun l hl hlf => ?_
    have hmem : l ∈ pre := List.mem_of_getLast? hl
    by_cases hdl : d = l
    · rw [← hdl]
      exact haddr.imp_right Or.inr
    · have hapl := hp.apart.forall hd (show l ∈ pre ++ b :: post by simp [hmem]) hdl
      simp only [Block.Apart, Block.stop] at hapl
      omega
  have hd' : d ∈ pre ++ { b with free := true } :: post := by
    simp only [List.mem_append, List.mem_cons, hdb, false_or] at hd ⊢
    exact hd.imp_right Or.inr
  obtain ⟨e, he, hef, hde⟩ := ht.release_covers (show 0 < blockSize by decide) hu hd' hdf
  refine ⟨hkeep ▸ hflag, c, e, rfl, he, hef, Block.Within.trans ⟨haddr, ?_⟩ hde⟩
  simpa only [Block.stop] using hstop

end

/-! ## Runs of `k_free` -/

/-- `k_free` of a pointer that has been freed already. -/
theorem kFree_freedAt {s : State} {bs : List Block} {a : Nat} (hp : Placed bs)
    (h : FreedAt s.mem bs a) : kFree s (a + blockSize) = some s := by
  obtain ⟨hflag, c, d, rfl, hd, -, -, hstop⟩ := h
  have hlt := hp.stop_lt d hd
  simp only [Block.stop] at hstop hlt
  rw [kFree, if_neg (by simp [blockSize]), usub_of_le (by omega) (by omega), Nat.add_sub_cancel]
  exact if_pos hflag

/-- The pointers still to be freed, after one more. -/
theorem filter_freed (ptr : Nat) (freed ptrs : List Nat) :
    ((ptrs.filter fun p => p ∉ freed).filter fun p => !p == ptr)
      = ptrs.filter fun p => p ∉ ptr :: freed := by
  rw [List.filter_filter]
  refine List.filter_congr fun p _ => ?_
  simp [Bool.beq_eq_decide_eq]

/-- A run of `k_free` from a state in which the pointers `freed` have been freed already. Each
step frees a live pointer, which then belongs to `freed`, or changes nothing. -/
theorem Inv.freeAll_freed {L : Layout} {r : Run} {bs : List Block} (h : Inv L r bs)
    (freed : List Nat) {ptrs : List Nat}
    (hfreed : ∀ ptr ∈ freed, ∃ a, ptr = a + blockSize ∧ FreedAt r.heap.mem bs a)
    (hptrs : ∀ ptr ∈ ptrs, ptr ∈ freed ∨ ptr ∈ r.live.map Prod.fst) :
    ∃ s, MicroKernel.Heap.freeAll r.heap ptrs = some s ∧
      MicroKernel.Heap.freeAll r.heap (ptrs.filter fun ptr => ptr ∉ freed).eraseDups = some s := by
  induction ptrs generalizing r bs freed with
  | nil => exact ⟨r.heap, rfl, rfl⟩
  | cons ptr ptrs ih =>
      by_cases hmem : ptr ∈ freed
      · -- a double free
        obtain ⟨a, rfl, ha⟩ := hfreed ptr hmem
        obtain ⟨s, hs, hs'⟩ := ih h freed hfreed fun p hp => hptrs p (by simp [hp])
        refine ⟨s, ?_, ?_⟩
        · rw [MicroKernel.Heap.freeAll, kFree_freedAt h.placed ha, Option.bind_some]
          exact hs
        · rw [List.filter_cons_of_neg (by simpa using hmem)]
          exact hs'
      · have hl := (hptrs ptr (by simp)).resolve_left hmem
        have hp := h.placed
        obtain ⟨pre, b, post, rfl, hf, rfl⟩ := h.owned.split hl
        obtain ⟨m', hk, hi, hw⟩ := h.release hf
        have hfreed' : ∀ p ∈ (b.addr + blockSize) :: freed, ∃ a, p = a + blockSize ∧
            FreedAt m' (MicroKernel.Lib.release blockSize b.addr (pre ++ b :: post)) a := by
          intro p hpf
          rcases List.mem_cons.mp hpf with rfl | hpf
          · exact ⟨b.addr, rfl, hw.freedAt_self h.tiled hf⟩
          · obtain ⟨a, rfl, ha⟩ := hfreed p hpf
            exact ⟨a, rfl, hw.freedAt hp h.tiled hf ha⟩
        have hptrs' : ∀ p ∈ ptrs, p ∈ (b.addr + blockSize) :: freed ∨
            p ∈ (drop r.live (b.addr + blockSize)).map Prod.fst := by
          intro p hpp
          by_cases heq : p = b.addr + blockSize
          · exact Or.inl (by simp [heq])
          · refine (hptrs p (by simp [hpp])).imp (List.mem_cons_of_mem _) fun hlive => ?_
            obtain ⟨e, he, rfl⟩ := List.mem_map.mp hlive
            exact List.mem_map.mpr ⟨e, List.mem_filter.mpr ⟨he, by simpa using heq⟩, rfl⟩
        obtain ⟨s, hs, hs'⟩ := ih hi _ hfreed' hptrs'
        refine ⟨s, ?_, ?_⟩
        · rw [MicroKernel.Heap.freeAll, hk, Option.bind_some]
          exact hs
        · rw [List.filter_cons_of_pos (by simpa using hmem), List.eraseDups_cons,
            MicroKernel.Heap.freeAll, hk, Option.bind_some, filter_freed]
          exact hs'

/-- **Double frees are harmless until the next allocation.** From every state that a run served
from the free list can reach, a sequence of `k_free` calls on pointers that are live there ends in
the state that freeing each of them once does, in the order of their first occurrences. -/
theorem freeAll_eraseDups (L : Layout) (hL : L.totalMemory ≠ 0) (mem : Bytes) (r : Run)
    (h : Relation.ReflTransGen (UseStep L) (boot L mem) r) (ptrs : List Nat)
    (hl : ∀ ptr ∈ ptrs, ptr ∈ r.live.map Prod.fst) :
    ∃ s, freeAll r.heap ptrs = some s ∧ freeAll r.heap ptrs.eraseDups = some s := by
  obtain ⟨bs, hi, -⟩ := inv_used hL h
  obtain ⟨s, hs, hs'⟩ := hi.freeAll_freed [] (by simp) fun ptr hp => Or.inr (hl ptr hp)
  refine ⟨s, hs, ?_⟩
  rwa [List.filter_eq_self.mpr (by simp)] at hs'

/-- The middle one of three blocks is freed again when both its neighbours have been merged with
it. -/
theorem freeAll_eraseDups_three :
    ∃ r s, Relation.ReflTransGen (UseStep layout512) (boot layout512 fun _ => 0) r ∧
      r.live.map Prod.fst = [0x0020408c, 0x0020407c, 0x0020400c] ∧
      freeAll r.heap [0x0020407c, 0x0020408c, 0x0020407c, 0x0020400c, 0x0020407c] = some s ∧
      freeAll r.heap [0x0020407c, 0x0020408c, 0x0020400c] = some s := by
  have h1 : Relation.ReflTransGen (UseStep layout512) (boot layout512 fun _ => 0) _ :=
    .single (.call ⟨.malloc 100, trivial, ⟨0x00204000, by decide, rfl⟩, rfl⟩)
  have h2 := h1.tail (.call ⟨.malloc 4, trivial, ⟨0x00204070, by decide, rfl⟩, rfl⟩)
  have h3 := h2.tail (.call ⟨.malloc 0, trivial, ⟨0x00204080, by decide, rfl⟩, rfl⟩)
  obtain ⟨s, hs, hs'⟩ := freeAll_eraseDups layout512 (by decide) _ _ h3
    [0x0020407c, 0x0020408c, 0x0020407c, 0x0020400c, 0x0020407c] (by decide)
  exact ⟨_, s, h3, rfl, hs, hs'⟩

end MicroKernel.Heap
