import MicroKernel.Heap.Refine
import Mathlib.Logic.Relation

set_option autoImplicit false

/-! # Sequences of heap calls

A run of the kernel's heap is a sequence of `k_malloc`, `k_free` and `k_realloc` calls. Beside
the heap itself it keeps what the callers know: the pointers they own and the size they asked
for (`Run.live`). Calls free or resize only pointers that are live, or `NULL`.

The lemmas below say what each call does to the list in memory and to the live pointers, as
long as requests are served from the free list and the blocks do not overlap.
-/

namespace MicroKernel.Heap

open MicroKernel.Lib MicroKernel.Libc Bytes

/-! ## Calls -/

/-- A call of the allocator. -/
inductive Call where
  | malloc (size : Nat)
  | free (ptr : Nat)
  | realloc (ptr size : Nat)

/-- The heap, and the live pointers with the sizes requested for them. -/
structure Run where
  heap : State
  live : List (Nat × Nat)

/-- The pointer may be passed to `k_free` or `k_realloc`. -/
def Run.Owns (r : Run) (ptr : Nat) : Prop := ptr = 0 ∨ ptr ∈ r.live.map Prod.fst

/-- The callers' side of the contract. -/
def Run.Allows (r : Run) : Call → Prop
  | .malloc _ => True
  | .free ptr => r.Owns ptr
  | .realloc ptr _ => r.Owns ptr

/-- The live pointers without `ptr`. -/
def drop (live : List (Nat × Nat)) (ptr : Nat) : List (Nat × Nat) :=
  live.filter fun e => e.1 ≠ ptr

/-- The live pointers after a request for `size` bytes returned `ptr`. -/
def grant (live : List (Nat × Nat)) (ptr size : Nat) : List (Nat × Nat) :=
  if ptr = 0 then live else (ptr, size) :: live

/-- Carry out a call. A `k_realloc` that fails leaves its pointer live; one of size `0` frees. -/
def Run.call (L : Layout) (r : Run) : Call → Option Run
  | .malloc size =>
      (kMalloc L r.heap size).map fun q => ⟨q.1, grant r.live q.2 size⟩
  | .free ptr => (kFree r.heap ptr).map fun s => ⟨s, drop r.live ptr⟩
  | .realloc ptr size =>
      (kRealloc L r.heap ptr size).map fun q =>
        if ptr = 0 then ⟨q.1, grant r.live q.2 size⟩
        else if size = 0 then ⟨q.1, drop r.live ptr⟩
        else if q.2 = 0 then ⟨q.1, r.live⟩
        else ⟨q.1, (q.2, size) :: drop r.live ptr⟩

/-- `k_malloc(size)` finds a block in the free list, so `allocate_frame` is not reached. -/
def FromFreeList (s : State) (size : Nat) : Prop :=
  ∃ current, current ≠ 0 ∧ findFit s.mem size steps s.freeList = some current

/-- Every request that the call makes is satisfied from the free list. -/
def Served (s : State) : Call → Prop
  | .malloc size => FromFreeList s size
  | .free _ => True
  | .realloc ptr size =>
      ptr = 0 ∨ (size ≠ 0 ∧ sizeAt s.mem (usub ptr blockSize) < size) → FromFreeList s size

/-- The run right after `initialize_memory_system`, whatever the memory held before. -/
def boot (L : Layout) (mem : Bytes) : Run :=
  ⟨initializeMemorySystem L ⟨mem, 0, 0⟩, []⟩

/-- One call within the contract, served from the free list. -/
def ServedStep (L : Layout) (r r' : Run) : Prop :=
  ∃ c, r.Allows c ∧ Served r.heap c ∧ r.call L c = some r'

/-! ## The heap and its callers -/

/-- The live pointers are the payloads of the used blocks, large enough for their requests. -/
structure Owned (live : List (Nat × Nat)) (bs : List Block) : Prop where
  nodup : (live.map Prod.fst).Nodup
  block : ∀ e ∈ live, ∃ b ∈ bs, b.free = false ∧ e.1 = b.addr + blockSize ∧ e.2 ≤ b.size
  owner : ∀ b ∈ bs, b.free = false → ∃ e ∈ live, e.1 = b.addr + blockSize

/-- Nobody owns a free block. -/
theorem Owned.append_free {live : List (Nat × Nat)} {bs : List Block} (h : Owned live bs) {c : Block}
    (hc : c.free = true) : Owned live (bs ++ [c]) where
  nodup := h.nodup
  block := by
    intro e he
    obtain ⟨b, hb, hused⟩ := h.block e he
    exact ⟨b, List.mem_append_left _ hb, hused⟩
  owner := by
    intro b hb hused
    rcases List.mem_append.mp hb with hb | hb
    · exact h.owner b hb hused
    · rw [List.mem_singleton.mp hb, hc] at hused
      cases hused

/-- A used block is found by its address. -/
theorem Placed.eq_of_addr {bs : List Block} (hp : Placed bs) {b c : Block} (hb : b ∈ bs)
    (hc : c ∈ bs) (h : b.addr = c.addr) : b = c := by
  by_contra hne
  have : Std.Symm (Block.Apart blockSize) := ⟨fun x y hxy => Or.symm hxy⟩
  have hap := hp.apart.forall hb hc hne
  have := headers_apart hap
  simp only [blockSize] at this
  omega

theorem Owned.alloc {live : List (Nat × Nat)} {bs bs' : List Block} {n a : Nat}
    (ho : Owned live bs) (hp : Placed bs) (ha : alloc blockSize n bs = some (a, bs')) :
    Owned ((a + blockSize, n) :: live) bs' := by
  obtain ⟨pre, b, post, rfl, -, hf, rfl, rfl⟩ := alloc_eq_some ha
  have hfree : b.free = true := hf.1
  -- the used blocks afterwards: the one given out, and those before
  have hu : ∀ c, c ∈ used (pre ++ (b.split blockSize n ++ post)) ↔
      c = b.given blockSize n ∨ c ∈ used (pre ++ b :: post) := by
    intro c
    have hnb : c ∈ used (b :: post) ↔ c ∈ used post := by simp [used, hfree]
    rw [used_append, used_append, used_split, used_append, List.mem_append, List.mem_append,
      List.mem_append, hnb, List.mem_singleton]
    tauto
  refine ⟨?_, ?_, ?_⟩
  · refine List.nodup_cons.mpr ⟨?_, ho.nodup⟩
    intro hmem
    obtain ⟨e, he, heq⟩ := List.mem_map.mp hmem
    obtain ⟨c, hc, hcf, h1, -⟩ := ho.block e he
    have hcb : c = b := hp.eq_of_addr hc (by simp) (by omega)
    rw [hcb, hfree] at hcf
    cases hcf
  · intro e he
    rcases List.mem_cons.mp he with rfl | he
    · have := mem_used.mp ((hu _).mpr (Or.inl rfl))
      exact ⟨b.given blockSize n, this.1, this.2, rfl, le_size_given hf⟩
    · obtain ⟨c, hc, hcf, h1, h2⟩ := ho.block e he
      have := mem_used.mp ((hu c).mpr (Or.inr (mem_used.mpr ⟨hc, hcf⟩)))
      exact ⟨c, this.1, this.2, h1, h2⟩
  · intro c hc hcf
    rcases (hu c).mp (mem_used.mpr ⟨hc, hcf⟩) with rfl | hc
    · exact ⟨(b.addr + blockSize, n), by simp, rfl⟩
    · have := mem_used.mp hc
      obtain ⟨e, he, h1⟩ := ho.owner c this.1 this.2
      exact ⟨e, by simp [he], h1⟩

theorem Owned.release {live : List (Nat × Nat)} {pre post : List Block} {b : Block}
    (ho : Owned live (pre ++ b :: post)) (hp : Placed (pre ++ b :: post)) (hb : b.free = false) :
    Owned (drop live (b.addr + blockSize)) (release blockSize b.addr (pre ++ b :: post)) := by
  have hu : ∀ c, c ∈ used (MicroKernel.Lib.release blockSize b.addr (pre ++ b :: post)) ↔
      c ∈ used (pre ++ b :: post) ∧ c.addr ≠ b.addr := by
    intro c
    rw [used_release_append hp.addr_ne rfl hb]
    constructor
    · intro hc
      have hc' : c ∈ pre ++ post ∧ c.free = false := by
        rw [← used_append] at hc
        exact mem_used.mp hc
      have hmem : c ∈ pre ++ b :: post := by
        have := hc'.1
        simp only [List.mem_append, List.mem_cons] at this ⊢
        tauto
      refine ⟨mem_used.mpr ⟨hmem, hc'.2⟩, ?_⟩
      rcases List.mem_append.mp hc'.1 with h | h
      · exact hp.addr_ne c h
      · have := headers_apart ((List.pairwise_cons.mp hp.right.apart).1 c h)
        simp only [blockSize] at this
        omega
    · rintro ⟨hc, hne⟩
      have := mem_used.mp hc
      rw [← used_append]
      refine mem_used.mpr ⟨?_, this.2⟩
      have hm := this.1
      simp only [List.mem_append, List.mem_cons] at hm ⊢
      rcases hm with h | rfl | h
      · exact Or.inl h
      · exact absurd rfl hne
      · exact Or.inr h
  refine ⟨(ho.nodup.sublist (List.filter_sublist.map _)), ?_, ?_⟩
  · intro e he
    obtain ⟨he, hne⟩ := List.mem_filter.mp he
    obtain ⟨c, hc, hcf, h1, h2⟩ := ho.block e he
    have hca : c.addr ≠ b.addr := by
      intro h
      simp [h1, h] at hne
    have := mem_used.mp ((hu c).mpr ⟨mem_used.mpr ⟨hc, hcf⟩, hca⟩)
    exact ⟨c, this.1, this.2, h1, h2⟩
  · intro c hc hcf
    obtain ⟨hcu, hca⟩ := (hu c).mp (mem_used.mpr ⟨hc, hcf⟩)
    have := mem_used.mp hcu
    obtain ⟨e, he, h1⟩ := ho.owner c this.1 this.2
    refine ⟨e, List.mem_filter.mpr ⟨he, ?_⟩, h1⟩
    simp only [ne_eq, decide_eq_true_eq]
    omega

/-! ## The calls on the list -/

theorem findFit_list {s : State} {bs : List Block} (n : Nat) (hs : Seg s.mem s.freeList bs 0)
    (hp : Placed bs) :
    findFit s.mem n steps s.freeList = some (((alloc blockSize n bs).map Prod.fst).getD 0) :=
  findFit_eq hs hp.pos hp.length_lt

/-- A request is served from the free list exactly when some free block fits. -/
theorem fromFreeList_iff {s : State} {bs : List Block} {n : Nat}
    (hs : Seg s.mem s.freeList bs 0) (hp : Placed bs) :
    FromFreeList s n ↔ ∃ a bs', alloc blockSize n bs = some (a, bs') := by
  unfold FromFreeList
  rw [findFit_list n hs hp]
  cases ha : alloc blockSize n bs with
  | none => simp
  | some r =>
      obtain ⟨a, bs'⟩ := r
      obtain ⟨pre, b, post, hbs, -, -, h1, -⟩ := alloc_eq_some ha
      have hb := hp.pos b (by simp [hbs])
      constructor
      · exact fun _ => ⟨a, bs', rfl⟩
      · exact fun _ => ⟨a, by omega, rfl⟩

theorem kMallocRec_served {L : Layout} {s : State} {bs bs' : List Block} {n a : Nat} (k : Nat)
    (hs : Seg s.mem s.freeList bs 0) (hp : Placed bs)
    (ha : alloc blockSize n bs = some (a, bs')) :
    kMallocRec L n (k + 1) s = some ({ s with mem := takeBlock s.mem n a }, a + blockSize) := by
  obtain ⟨pre, b, post, hbs, -, -, rfl, -⟩ := alloc_eq_some ha
  have hb : b ∈ bs := by simp [hbs]
  have hpos := hp.pos b hb
  have hstop := hp.stop_lt b hb
  simp only [Block.stop] at hstop
  rw [kMallocRec, findFit_list n hs hp, ha]
  simp only [Option.map_some, Option.getD_some, Option.bind_some, if_pos (Nat.ne_of_gt hpos)]
  rw [u32_eq_self (by omega)]

/-- `k_malloc` of a request that the free list can serve. -/
theorem kMalloc_served {L : Layout} {s : State} {bs bs' : List Block} {n a : Nat}
    (hs : Seg s.mem s.freeList bs 0) (hp : Placed bs)
    (ha : alloc blockSize n bs = some (a, bs')) :
    kMalloc L s n = some ({ s with mem := takeBlock s.mem n a }, a + blockSize) :=
  kMallocRec_served 4294967295 hs hp ha

/-- The block of a live pointer, with the list around it. -/
theorem Owned.split {live : List (Nat × Nat)} {bs : List Block} (ho : Owned live bs) {ptr : Nat}
    (hl : ptr ∈ live.map Prod.fst) :
    ∃ pre b post, bs = pre ++ b :: post ∧ b.free = false ∧ ptr = b.addr + blockSize := by
  obtain ⟨e, he, rfl⟩ := List.mem_map.mp hl
  obtain ⟨b, hb, hf, h1, -⟩ := ho.block e he
  obtain ⟨pre, post, rfl⟩ := List.append_of_mem hb
  exact ⟨pre, b, post, rfl, hf, h1⟩

/-- The block given out is in the list, used and with room for the request. -/
theorem given_mem {n a : Nat} {bs bs' : List Block} (ha : alloc blockSize n bs = some (a, bs')) :
    ∃ g ∈ bs', g.free = false ∧ g.addr = a ∧ n ≤ g.size := by
  obtain ⟨pre, b, post, rfl, -, hf, rfl, rfl⟩ := alloc_eq_some ha
  refine ⟨b.given blockSize n, ?_, rfl, rfl, le_size_given hf⟩
  have : b.given blockSize n ∈ used (b.split blockSize n) := by simp [used_split]
  simp [(mem_used.mp this).1]

/-- A live pointer is not the one just given out. -/
theorem Owned.alloc_ne {live : List (Nat × Nat)} {bs bs' : List Block} {n a ptr : Nat}
    (ho : Owned live bs) (hp : Placed bs) (ha : MicroKernel.Lib.alloc blockSize n bs = some (a, bs'))
    (hl : ptr ∈ live.map Prod.fst) : a + blockSize ≠ ptr := by
  intro h
  have := (ho.alloc hp ha).nodup
  rw [List.map_cons, List.nodup_cons] at this
  exact this.1 (h ▸ hl)

/-! ## `k_realloc` -/

theorem Owned.ne_zero {live : List (Nat × Nat)} {bs : List Block} (ho : Owned live bs) {ptr : Nat}
    (hl : ptr ∈ live.map Prod.fst) : ptr ≠ 0 := by
  obtain ⟨_, b, _, _, _, rfl⟩ := ho.split hl
  simp [blockSize]

/-- `NULL` is not live, so freeing it drops nothing. -/
theorem Owned.drop_zero {live : List (Nat × Nat)} {bs : List Block} (ho : Owned live bs) :
    drop live 0 = live := by
  refine List.filter_eq_self.mpr fun e he => ?_
  obtain ⟨b, -, -, h1, -⟩ := ho.block e he
  simp [h1, blockSize]

/-- A block that has room for the new size keeps its owner. -/
theorem Owned.resize {live : List (Nat × Nat)} {bs : List Block} {b : Block} {n : Nat}
    (ho : Owned live bs) (hb : b ∈ bs) (hf : b.free = false) (hn : n ≤ b.size) :
    Owned ((b.addr + blockSize, n) :: drop live (b.addr + blockSize)) bs := by
  refine ⟨?_, ?_, ?_⟩
  · rw [List.map_cons]
    refine List.nodup_cons.mpr ⟨?_, ho.nodup.sublist (List.filter_sublist.map _)⟩
    simp [drop]
  · intro e he
    rcases List.mem_cons.mp he with rfl | he
    · exact ⟨b, hb, hf, rfl, hn⟩
    · exact ho.block e (List.mem_filter.mp he).1
  · intro c hc hcf
    obtain ⟨e, he, h1⟩ := ho.owner c hc hcf
    by_cases heq : e.1 = b.addr + blockSize
    · exact ⟨(b.addr + blockSize, n), by simp, by omega⟩
    · exact ⟨e, List.mem_cons_of_mem _ (List.mem_filter.mpr ⟨he, by simpa using heq⟩), h1⟩

/-- The size that `k_realloc` reads is the size of the block. -/
theorem sizeAt_live {s : State} {pre post : List Block} {b : Block}
    (hs : Seg s.mem s.freeList (pre ++ b :: post) 0) (hp : Placed (pre ++ b :: post)) :
    sizeAt s.mem (usub (b.addr + blockSize) blockSize) = b.size := by
  have hstop := hp.stop_lt b (by simp)
  simp only [Block.stop] at hstop
  obtain ⟨r, -, hsb⟩ := seg_append.mp hs
  rw [usub_of_le (by omega) (by omega), Nat.add_sub_cancel]
  exact hsb.1 ▸ hsb.2.1

/-- The heap between the allocation and the release of a `k_realloc` that has to move. -/
def reallocCopied (s : State) (ptr newSize : Nat) (q : State × Nat) : State :=
  let oldSize := sizeAt s.mem (usub ptr blockSize)
  { q.1 with mem := memmove q.1.mem q.2 ptr (if oldSize < newSize then oldSize else newSize) }

/-- Copying into the block given out changes bytes of its payload only. -/
theorem reallocCopied_outside {s : State} {ptr n : Nat} {q : State × Nat} {g : Block}
    (hg : g.stop blockSize < 2 ^ 32) (hq : q.2 = g.addr + blockSize) (hn : n ≤ g.size) {x : Nat}
    (hx : x < g.addr + blockSize ∨ g.stop blockSize ≤ x) :
    (reallocCopied s ptr n q).mem x = q.1.mem x := by
  simp only [Block.stop] at hg hx
  have hlen : (if sizeAt s.mem (usub ptr blockSize) < n then sizeAt s.mem (usub ptr blockSize)
      else n) ≤ n := by
    split <;> omega
  exact memmove_outside _ (by omega) (by omega)

/-- The headers of the list are not touched by the copy. -/
theorem reallocCopied_header {s : State} {ptr n : Nat} {q : State × Nat} {bs : List Block}
    {g : Block} (hp : Placed bs) (hg : g ∈ bs) (hq : q.2 = g.addr + blockSize) (hn : n ≤ g.size) :
    ∀ c ∈ bs, ∀ i, i < blockSize →
      (reallocCopied s ptr n q).mem (c.addr + i) = q.1.mem (c.addr + i) := by
  have hB : blockSize = 12 := rfl
  intro c hc i hi
  refine reallocCopied_outside (hp.stop_lt g hg) hq hn ?_
  by_cases hcg : c = g
  · rw [hcg]
    exact Or.inl (by omega)
  · have : Std.Symm (Block.Apart blockSize) := ⟨fun x y hxy => Or.symm hxy⟩
    have hap := hp.apart.forall hc hg hcg
    simp only [Block.Apart, Block.stop] at hap ⊢
    omega

theorem seg_reallocCopied {s : State} {ptr n : Nat} {q : State × Nat} {bs : List Block}
    {g : Block} (hs : Seg q.1.mem q.1.freeList bs 0) (hp : Placed bs) (hg : g ∈ bs)
    (hq : q.2 = g.addr + blockSize) (hn : n ≤ g.size) :
    Seg (reallocCopied s ptr n q).mem (reallocCopied s ptr n q).freeList bs 0 :=
  hs.congr (reallocCopied_header hp hg hq hn)

/-- `k_realloc(NULL, size)` is `k_malloc(size)`. -/
theorem Run.call_realloc_null (L : Layout) (r : Run) (n : Nat) :
    r.call L (.realloc 0 n) = r.call L (.malloc n) := by
  rw [Run.call, Run.call, kRealloc, if_pos rfl]
  rfl

section

variable {L : Layout} {r : Run} {ptr n : Nat}

/-- `k_realloc(ptr, 0)` is `k_free(ptr)`. -/
theorem Run.call_realloc_zero (hptr : ptr ≠ 0) :
    r.call L (.realloc ptr 0) = r.call L (.free ptr) := by
  rw [Run.call, Run.call, kRealloc, if_neg hptr, if_pos rfl, Option.map_map]
  simp only [Function.comp_def, if_neg hptr, if_true]

/-- `k_realloc` to a size that the block already has returns the same pointer. -/
theorem Run.call_realloc_keep (hptr : ptr ≠ 0) (hn0 : n ≠ 0)
    (hn : n ≤ sizeAt r.heap.mem (usub ptr blockSize)) :
    r.call L (.realloc ptr n) = some ⟨r.heap, (ptr, n) :: drop r.live ptr⟩ := by
  rw [Run.call, kRealloc, if_neg hptr, if_neg hn0]
  simp only [if_pos hn]
  rw [Option.map_some, if_neg hptr, if_neg hn0, if_neg hptr]

/-- `k_realloc` to a larger size fails when its `k_malloc` does. -/
theorem Run.call_realloc_fail (hptr : ptr ≠ 0)
    (hn : sizeAt r.heap.mem (usub ptr blockSize) < n) {s : State}
    (hm : kMalloc L r.heap n = some (s, 0)) :
    r.call L (.realloc ptr n) = some ⟨s, r.live⟩ := by
  rw [Run.call, kRealloc, if_neg hptr, if_neg (by omega)]
  simp only [if_neg (Nat.not_le.mpr hn), hm, Option.bind_some, if_true, Option.map_some,
    if_neg hptr]
  rw [if_neg (by omega)]

/-- `k_realloc` to a larger size: allocate, copy, free. -/
theorem kRealloc_grow {s s' : State} (hptr : ptr ≠ 0)
    (hn : sizeAt s.mem (usub ptr blockSize) < n) {q : State × Nat} (hm : kMalloc L s n = some q)
    (hq : q.2 ≠ 0) (hk : kFree (reallocCopied s ptr n q) ptr = some s') :
    kRealloc L s ptr n = some (s', q.2) := by
  unfold reallocCopied at hk
  dsimp only at hk
  rw [kRealloc, if_neg hptr, if_neg (by omega)]
  simp only [if_neg (Nat.not_le.mpr hn), hm, Option.bind_some, if_neg hq, hk, Option.map_some]

theorem Run.call_realloc_grow (hptr : ptr ≠ 0)
    (hn : sizeAt r.heap.mem (usub ptr blockSize) < n) {q : State × Nat} {s : State}
    (hm : kMalloc L r.heap n = some q) (hq : q.2 ≠ 0)
    (hk : kFree (reallocCopied r.heap ptr n q) ptr = some s) :
    r.call L (.realloc ptr n) = some ⟨s, (q.2, n) :: drop r.live ptr⟩ := by
  rw [Run.call, kRealloc_grow hptr hn hm hq hk]
  simp only [Option.map_some, if_neg hptr, if_neg hq]
  rw [if_neg (by omega)]

end

end MicroKernel.Heap
