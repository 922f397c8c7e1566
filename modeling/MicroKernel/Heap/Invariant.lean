import MicroKernel.Heap.Calls

set_option autoImplicit false

/-! # The representation invariant of the kernel heap

As long as every request is served from the free list, the list in memory is a tiling of the
region from the end of the frame bitmap to `HEAP_END`, without two free neighbours, and the live
pointers are the payloads of its used blocks (`Inv`). `initialize_memory_system` establishes this
and each call keeps it; `WellShaped` spells out what it says about walking the list.
-/

namespace MicroKernel.Heap

open MicroKernel.Lib MicroKernel.Libc Bytes

/-! ## The invariant -/

/-- The heap of `r` in memory is `bs`, a coalesced tiling owned by the live pointers. -/
structure Inv (L : Layout) (r : Run) (bs : List Block) : Prop where
  seg : Seg r.heap.mem r.heap.freeList bs 0
  tiled : Tiled blockSize L.freelistStart heapEnd bs
  coalesced : Coalesced bs
  owned : Owned r.live bs

/-- The region of the heap has room for a header: the linker keeps the kernel below 33 MB and
the bitmap of a 4 GB machine has 128 KB. -/
theorem Layout.freelistStart_bounds (L : Layout) :
    kernelBase < L.freelistStart ∧ L.freelistStart + blockSize ≤ heapEnd := by
  have h1 := L.kernelBase_lt
  have h2 := L.kernelEnd_le
  have h3 := L.totalMemory_lt
  simp only [Layout.freelistStart, Layout.heapStart, Layout.bitmapSize, alignUp16, frameSize,
    kernelBase, blockSize, heapEnd] at *
  omega

theorem placed_of_tiled {lo hi : Nat} {bs : List Block} (ht : Tiled blockSize lo hi bs)
    (hlo : 0 < lo) (hhi : hi < 2 ^ 32) : Placed bs := by
  refine ⟨?_, ?_, ht.pairwise.imp fun h => Or.inl h⟩
  · intro b hb
    have := (ht.mem_bounds hb).1
    omega
  · intro b hb
    have := (ht.mem_bounds hb).2
    omega

theorem Inv.placed {L : Layout} {r : Run} {bs : List Block} (h : Inv L r bs) : Placed bs := by
  have := L.freelistStart_bounds
  simp only [kernelBase] at this
  exact placed_of_tiled h.tiled (by omega) (by decide)

theorem size_lt_of_tiled {lo : Nat} {bs : List Block} (ht : Tiled blockSize lo heapEnd bs) :
    ∀ x ∈ bs, x.size < 2 ^ 32 := by
  intro x hx
  have := (ht.mem_bounds hx).2
  simp only [Block.stop, heapEnd] at this
  omega

/-! ## Establishing it -/

theorem inv_boot (L : Layout) (hL : L.totalMemory ≠ 0) (mem : Bytes) :
    Inv L (boot L mem)
      [{ addr := L.freelistStart, size := heapEnd - L.freelistStart - blockSize,
         free := true }] := by
  have hB : blockSize = 12 := rfl
  have hE : heapEnd = 0x0f000000 := rfl
  have hb := L.freelistStart_bounds
  simp only [kernelBase] at hb
  refine ⟨?_, ?_, List.isChain_singleton _, ?_⟩
  · simp only [boot, initializeMemorySystem, if_neg hL]
    have e : usub (usub heapEnd L.freelistStart) blockSize
        = heapEnd - L.freelistStart - blockSize := by
      rw [usub_of_le (a := heapEnd) (by omega) (by omega), usub_of_le (by omega) (by omega)]
    rw [e]
    refine ⟨rfl, ?_, ?_, ?_⟩
    · rw [sizeAt, load32_store32_ne _ _ (by omega), load32_store32_ne _ _ (by omega),
        load32_store32_same]
      exact Nat.mod_eq_of_lt (by omega)
    · rw [freeAt, load32_store32_ne _ _ (by omega), load32_store32_same]
      simp
    · show nextAt _ _ = 0
      rw [nextAt, load32_store32_same, Nat.zero_mod]
  · refine ⟨rfl, ?_⟩
    show Block.stop _ _ = _
    simp only [Block.stop]
    omega
  · refine ⟨by simp [boot], by simp [boot], ?_⟩
    intro b hb hf
    rw [List.mem_singleton.mp hb] at hf
    cases hf

/-! ## Keeping it -/

/-- The heap after giving out a block. -/
theorem Inv.alloc {L : Layout} {r : Run} {bs bs' : List Block} (h : Inv L r bs) {n a : Nat}
    (ha : MicroKernel.Lib.alloc blockSize n bs = some (a, bs')) :
    Inv L ⟨{ r.heap with mem := takeBlock r.heap.mem n a }, (a + blockSize, n) :: r.live⟩ bs' :=
  ⟨takeBlock_refines h.seg h.placed ha, h.tiled.alloc ha, h.coalesced.alloc ha,
    h.owned.alloc h.placed ha⟩

theorem Inv.malloc {L : Layout} {r : Run} {bs : List Block} (h : Inv L r bs) {n : Nat}
    (hs : FromFreeList r.heap n) :
    ∃ r' bs', r.call L (.malloc n) = some r' ∧ Inv L r' bs' ∧
      (Flagged r.heap.mem bs → Flagged r'.heap.mem bs') := by
  obtain ⟨a, bs', ha⟩ := (fromFreeList_iff h.seg h.placed).mp hs
  refine ⟨⟨{ r.heap with mem := takeBlock r.heap.mem n a }, (a + blockSize, n) :: r.live⟩, bs',
    ?_, h.alloc ha, flagged_takeBlock h.seg h.placed ha⟩
  simp [Run.call, kMalloc_served h.seg h.placed ha, grant, blockSize]

/-- The heap after freeing a used block, and what has been written. -/
theorem Inv.release {L : Layout} {r : Run} {pre post : List Block} {b : Block}
    (h : Inv L r (pre ++ b :: post)) (hf : b.free = false) :
    ∃ m', kFree r.heap (b.addr + blockSize) = some { r.heap with mem := m' } ∧
      Inv L ⟨{ r.heap with mem := m' }, drop r.live (b.addr + blockSize)⟩
        (MicroKernel.Lib.release blockSize b.addr (pre ++ b :: post)) ∧
      FreeWrites r.heap.mem m' pre b := by
  have hp := h.placed
  have ht := h.tiled.release (a := b.addr) (show 0 < blockSize by decide)
  obtain ⟨m', hk, hseg, hw⟩ := kFree_spec h.seg hp hf (size_lt_of_tiled ht)
  exact ⟨m', hk, ⟨hseg, ht, h.coalesced.release hp.addr_ne rfl hf, h.owned.release hp hf⟩, hw⟩

theorem Inv.free {L : Layout} {r : Run} {bs : List Block} (h : Inv L r bs) {ptr : Nat}
    (hl : ptr ∈ r.live.map Prod.fst) :
    ∃ s' bs', kFree r.heap ptr = some s' ∧ Inv L ⟨s', drop r.live ptr⟩ bs' ∧
      (Flagged r.heap.mem bs → Flagged s'.mem bs') := by
  obtain ⟨pre, b, post, rfl, hf, rfl⟩ := h.owned.split hl
  obtain ⟨m', hk, hi, hw⟩ := h.release hf
  exact ⟨_, _, hk, hi, hw.flagged h.placed hf⟩

/-- The copy of `k_realloc` goes into the payload of the block just given out. -/
theorem Inv.copied {L : Layout} {s : State} {ptr n : Nat} {q : State × Nat}
    {live : List (Nat × Nat)} {bs : List Block} {g : Block} (h : Inv L ⟨q.1, live⟩ bs) (hg : g ∈ bs)
    (hq : q.2 = g.addr + blockSize) (hn : n ≤ g.size) :
    Inv L ⟨reallocCopied s ptr n q, live⟩ bs ∧
      (Flagged q.1.mem bs → Flagged (reallocCopied s ptr n q).mem bs) := by
  have hkeep : ∀ c ∈ bs, ∀ i, i < blockSize →
      (reallocCopied s ptr n q).mem (c.addr + i) = q.1.mem (c.addr + i) :=
    reallocCopied_header h.placed hg hq hn
  refine ⟨⟨h.seg.congr hkeep, h.tiled, h.coalesced, h.owned⟩, fun hfl c hc => ?_⟩
  have hflag : freeAt (reallocCopied s ptr n q).mem c.addr = freeAt q.1.mem c.addr :=
    load32_congr fun i hi => by
      simpa [Nat.add_assoc] using hkeep c hc (4 + i) (by simp only [blockSize]; omega)
  rw [hflag]
  exact hfl c hc

/-- `k_realloc` of the block `b` to a larger size: allocate `g`, copy, free `b`. The list `bs₁` is
the one in between. -/
theorem Inv.realloc {L : Layout} {r : Run} {bs : List Block} (h : Inv L r bs) {b : Block} {n : Nat}
    (hb : b ∈ bs) (hf : b.free = false) (hn : b.size < n) (hs : FromFreeList r.heap n) :
    ∃ g bs₁ pre post m', MicroKernel.Lib.alloc blockSize n bs = some (g.addr, bs₁) ∧ g ∈ bs₁ ∧
      g.free = false ∧ n ≤ g.size ∧ g ≠ b ∧ bs₁ = pre ++ b :: post ∧ Placed bs₁ ∧
      kRealloc L r.heap (b.addr + blockSize) n
        = some ({ r.heap with mem := m' }, g.addr + blockSize) ∧
      Inv L ⟨{ r.heap with mem := m' },
          (g.addr + blockSize, n) :: drop r.live (b.addr + blockSize)⟩
        (MicroKernel.Lib.release blockSize b.addr bs₁) ∧
      FreeWrites (memmove (takeBlock r.heap.mem n g.addr) (g.addr + blockSize)
        (b.addr + blockSize) b.size) m' pre b ∧
      (Flagged r.heap.mem bs → Flagged m' (MicroKernel.Lib.release blockSize b.addr bs₁)) := by
  have hp := h.placed
  obtain ⟨a, bs₁, ha⟩ := (fromFreeList_iff h.seg hp).mp hs
  obtain ⟨e, he, heb⟩ := h.owned.owner b hb hf
  have hl : b.addr + blockSize ∈ r.live.map Prod.fst := List.mem_map.mpr ⟨e, he, heb⟩
  have hne := h.owned.alloc_ne hp ha hl
  have hm := kMalloc_served (L := L) h.seg hp ha
  have h1 := h.alloc ha
  obtain ⟨g, hg, hgf, rfl, hgn⟩ := given_mem ha
  have hgb : g ≠ b := fun hgb => hne (by rw [hgb])
  obtain ⟨pre, post, rfl⟩ := List.append_of_mem (mem_alloc_of_used ha hb hf)
  have hsize : sizeAt r.heap.mem (usub (b.addr + blockSize) blockSize) = b.size := by
    obtain ⟨pre₀, post₀, rfl⟩ := List.append_of_mem hb
    exact sizeAt_live h.seg hp
  -- the heap between the copy and the free
  set q : State × Nat :=
    ({ r.heap with mem := takeBlock r.heap.mem n g.addr }, g.addr + blockSize)
  have hq : q.2 ≠ 0 := Nat.succ_ne_zero _
  have h2 : Inv L ⟨reallocCopied r.heap (b.addr + blockSize) n q,
      (g.addr + blockSize, n) :: r.live⟩ (pre ++ b :: post) ∧ _ := Inv.copied h1 hg rfl hgn
  obtain ⟨m', hk, h3, hw⟩ := h2.1.release hf
  have hd : drop ((g.addr + blockSize, n) :: r.live) (b.addr + blockSize)
      = (g.addr + blockSize, n) :: drop r.live (b.addr + blockSize) :=
    List.filter_cons_of_pos (by simpa using hne)
  rw [hd] at h3
  refine ⟨g, _, pre, post, m', ha, hg, hgf, hgn, hgb, rfl, h1.placed,
    kRealloc_grow (Nat.succ_ne_zero _) (hsize ▸ hn) hm hq hk, h3, ?_,
    fun hfl => hw.flagged h1.placed hf (h2.2 (flagged_takeBlock h.seg hp ha hfl))⟩
  simpa only [reallocCopied, hsize, if_pos hn] using hw

theorem Inv.grow {L : Layout} {r : Run} {bs : List Block} (h : Inv L r bs) {ptr n : Nat}
    (hl : ptr ∈ r.live.map Prod.fst) (hn : sizeAt r.heap.mem (usub ptr blockSize) < n)
    (hs : FromFreeList r.heap n) :
    ∃ r' bs', r.call L (.realloc ptr n) = some r' ∧ Inv L r' bs' ∧
      (Flagged r.heap.mem bs → Flagged r'.heap.mem bs') := by
  have hptr := h.owned.ne_zero hl
  obtain ⟨pre, b, post, rfl, hf, rfl⟩ := h.owned.split hl
  rw [sizeAt_live h.seg h.placed] at hn
  obtain ⟨g, bs₁, -, -, m', -, -, -, -, -, -, -, hk, hi, -, hfl⟩ := h.realloc (by simp) hf hn hs
  refine ⟨_, _, ?_, hi, hfl⟩
  rw [Run.call, hk, Option.map_some, if_neg hptr, if_neg (by omega), if_neg (by simp [blockSize])]

/-- `k_realloc` to a size that the block already has. -/
theorem Inv.keep {L : Layout} {r : Run} {bs : List Block} (h : Inv L r bs) {ptr n : Nat}
    (hl : ptr ∈ r.live.map Prod.fst) (hn0 : n ≠ 0)
    (hn : n ≤ sizeAt r.heap.mem (usub ptr blockSize)) :
    ∃ r', r.call L (.realloc ptr n) = some r' ∧ Inv L r' bs ∧ r'.heap = r.heap := by
  refine ⟨_, Run.call_realloc_keep (h.owned.ne_zero hl) hn0 hn, ⟨h.seg, h.tiled, h.coalesced, ?_⟩,
    rfl⟩
  have hp := h.placed
  obtain ⟨pre, b, post, rfl, hf, rfl⟩ := h.owned.split hl
  rw [sizeAt_live h.seg hp] at hn
  exact h.owned.resize (by simp) hf hn

/-- **Every call keeps the invariant.** It returns, too. -/
theorem Inv.call {L : Layout} {r : Run} {bs : List Block} (h : Inv L r bs) {c : Call}
    (hc : r.Allows c) (hs : Served r.heap c) :
    ∃ r' bs', r.call L c = some r' ∧ Inv L r' bs' ∧
      (Flagged r.heap.mem bs → Flagged r'.heap.mem bs') := by
  cases c with
  | malloc n => exact h.malloc hs
  | free ptr =>
      rcases hc with rfl | hl
      · refine ⟨⟨r.heap, drop r.live 0⟩, bs, by simp [Run.call, kFree], ⟨h.seg, h.tiled,
          h.coalesced, ?_⟩, id⟩
        rw [h.owned.drop_zero]
        exact h.owned
      · obtain ⟨s', bs', hk, h'⟩ := h.free hl
        exact ⟨_, bs', by simp [Run.call, hk], h'⟩
  | realloc ptr n =>
      rcases hc with rfl | hl
      · rw [Run.call_realloc_null]
        exact h.malloc (hs (Or.inl rfl))
      · by_cases hn0 : n = 0
        · obtain ⟨s', bs', hk, h'⟩ := h.free hl
          rw [hn0, Run.call_realloc_zero (h.owned.ne_zero hl)]
          exact ⟨_, bs', by simp [Run.call, hk], h'⟩
        · by_cases hn : n ≤ sizeAt r.heap.mem (usub ptr blockSize)
          · obtain ⟨r', hk, h', hheap⟩ := h.keep hl hn0 hn
            exact ⟨r', bs, hk, h', by rw [hheap]; exact id⟩
          · exact h.grow hl (by omega) (hs (Or.inr ⟨hn0, by omega⟩))

theorem inv_reachable {L : Layout} (hL : L.totalMemory ≠ 0) {mem : Bytes} {r : Run}
    (h : Relation.ReflTransGen (ServedStep L) (boot L mem) r) : ∃ bs, Inv L r bs := by
  induction h with
  | refl => exact ⟨_, inv_boot L hL mem⟩
  | tail _ hstep ih =>
      obtain ⟨bs, hi⟩ := ih
      obtain ⟨c, hc, hs, hk⟩ := hstep
      obtain ⟨r', bs', hk', hi', -⟩ := hi.call hc hs
      rw [hk, Option.some.injEq] at hk'
      subst hk'
      exact ⟨bs', hi'⟩

/-! ## What a walk along the list sees -/

/-- The blocks visited from `p` on, as the headers in memory describe them. -/
def walk (m : Bytes) : Nat → Nat → Option (List Block)
  | 0, _ => none
  | k + 1, p =>
      if p = 0 then some []
      else (walk m k (nextAt m p)).map
        ({ addr := p, size := sizeAt m p, free := freeAt m p ≠ 0 } :: ·)

theorem walk_eq {m : Bytes} {p : Nat} {bs : List Block} (hs : Seg m p bs 0)
    (hpos : ∀ b ∈ bs, 0 < b.addr) {k : Nat} (hk : bs.length < k) : walk m k p = some bs := by
  induction bs generalizing p k with
  | nil =>
      obtain ⟨k, rfl⟩ : ∃ k', k = k' + 1 := ⟨k - 1, by simp at hk; omega⟩
      simp [walk, show p = 0 from hs]
  | cons b bs ih =>
      obtain ⟨k, rfl⟩ : ∃ k', k = k' + 1 := ⟨k - 1, by simp at hk; omega⟩
      obtain ⟨rfl, h2, h3, h4⟩ := hs
      have hb := hpos b (by simp)
      have hf : decide (freeAt m b.addr ≠ 0) = b.free := by
        rw [Bool.eq_iff_iff, decide_eq_true_iff]
        exact h3
      rw [walk, if_neg (by omega), ih h4 (fun c hc => hpos c (by simp [hc]))
        (by simp at hk; omega), h2, hf]
      rfl

/-- What walking `free_list` sees of a heap in order, and what the callers rely on. -/
structure WellShaped (L : Layout) (r : Run) (bs : List Block) : Prop where
  /-- The walk ends and visits the blocks `bs`. -/
  visits : walk r.heap.mem steps r.heap.freeList = some bs
  increasing : bs.Pairwise fun b c => b.addr < c.addr
  /-- Each `next` is the end of its block and the address of the next one. -/
  linked : bs.IsChain fun b c =>
    nextAt r.heap.mem b.addr = b.addr + blockSize + b.size ∧ c.addr = nextAt r.heap.mem b.addr
  /-- The last block ends at `HEAP_END`. -/
  ends : ∃ b, bs.getLast? = some b ∧ b.addr + blockSize + b.size = heapEnd
  /-- Headers and payloads add up to the same constant in every state. -/
  total : (bs.map fun b => b.size + blockSize).sum = heapEnd - L.freelistStart
  coalesced : bs.IsChain fun b c => ¬ (b.free = true ∧ c.free = true)
  /-- A live pointer is the payload of a used block of at least the size requested. -/
  sized : ∀ e ∈ r.live, ∃ b ∈ bs, b.free = false ∧ e.1 = b.addr + blockSize ∧ e.2 ≤ b.size
  /-- The blocks of different live pointers share no byte. -/
  disjoint : r.live.Pairwise fun e f => ∀ b ∈ bs, ∀ c ∈ bs,
    e.1 = b.addr + blockSize → f.1 = c.addr + blockSize → b.Apart blockSize c

theorem linked_of_tiled {m : Bytes} {p lo hi : Nat} {bs : List Block} (hs : Seg m p bs 0)
    (ht : Tiled blockSize lo hi bs) :
    bs.IsChain fun b c => nextAt m b.addr = b.addr + blockSize + b.size ∧
      c.addr = nextAt m b.addr := by
  induction bs generalizing p lo with
  | nil => exact List.isChain_nil
  | cons b bs ih =>
      obtain ⟨rfl, -, -, h4⟩ := hs
      refine (ih h4 ht.2).cons fun c hc => ?_
      cases bs with
      | nil => simp at hc
      | cons d ds =>
          simp only [List.head?_cons, Option.mem_def, Option.some.injEq] at hc
          subst hc
          have h1 : nextAt m b.addr = d.addr := h4.1
          have h2 : d.addr = b.stop blockSize := ht.2.1
          exact ⟨by rw [h1, h2]; rfl, h1.symm⟩

theorem tiled_getLast {h lo hi : Nat} {bs : List Block} (ht : Tiled h lo hi bs) (hlt : lo < hi) :
    ∃ b, bs.getLast? = some b ∧ b.stop h = hi := by
  rcases List.eq_nil_or_concat bs with rfl | ⟨bs, b, rfl⟩
  · exact absurd (show lo = hi from ht) (by omega)
  · rw [List.concat_eq_append] at ht ⊢
    obtain ⟨mid, -, h2⟩ := tiled_append.mp ht
    exact ⟨b, by simp, h2.2⟩

theorem Inv.wellShaped {L : Layout} {r : Run} {bs : List Block} (h : Inv L r bs) :
    WellShaped L r bs := by
  have hp := h.placed
  have hb := L.freelistStart_bounds
  refine ⟨walk_eq h.seg hp.pos hp.length_lt, ?_, linked_of_tiled h.seg h.tiled,
    tiled_getLast h.tiled (by simp only [blockSize] at hb; omega), h.tiled.sum_size, h.coalesced,
    h.owned.block, ?_⟩
  · refine h.tiled.pairwise.imp fun {b c} hbc => ?_
    simp only [Block.stop, blockSize] at hbc
    omega
  · have hnd : r.live.Pairwise fun e f => e.1 ≠ f.1 := List.pairwise_map.mp h.owned.nodup
    refine hnd.imp fun {e f} hef b hb c hc h1 h2 => ?_
    have : Std.Symm (Block.Apart blockSize) := ⟨fun x y hxy => Or.symm hxy⟩
    refine hp.apart.forall hb hc fun hbc => ?_
    rw [hbc] at h1
    omega

/-- **The heap representation invariant.** In every state that calls served from the free list
can reach, the list is well shaped, and the next such call returns. -/
theorem heap_wellShaped (L : Layout) (hL : L.totalMemory ≠ 0) (mem : Bytes) (r : Run)
    (h : Relation.ReflTransGen (ServedStep L) (boot L mem) r) :
    (∃ bs, WellShaped L r bs) ∧
      ∀ c, r.Allows c → Served r.heap c → ∃ r', r.call L c = some r' := by
  obtain ⟨bs, hi⟩ := inv_reachable hL h
  refine ⟨⟨bs, hi.wellShaped⟩, fun c hc hs => ?_⟩
  obtain ⟨r', -, hk, -⟩ := hi.call hc hs
  exact ⟨r', hk⟩

/-- A machine with 512 MB whose kernel image ends at 2 MB. -/
def layout512 : Layout where
  kernelEnd := 0x00200000
  totalMemory := 0x20000000
  kernelBase_lt := by decide
  kernelEnd_le := by decide
  totalMemory_lt := by decide

theorem heap_wellShaped_malloc_free :
    ∃ r, Relation.ReflTransGen (ServedStep layout512) (boot layout512 fun _ => 0) r ∧
      r.live = [(0x0020407c, 50)] ∧ (∃ bs, WellShaped layout512 r bs) := by
  have h1 : Relation.ReflTransGen (ServedStep layout512) (boot layout512 fun _ => 0) _ :=
    .single ⟨.malloc 100, trivial, ⟨0x00204000, by decide, rfl⟩, rfl⟩
  have h2 := h1.tail ⟨.malloc 50, trivial, ⟨0x00204070, by decide, rfl⟩, rfl⟩
  have h3 := h2.tail ⟨.free 0x0020400c, Or.inr (by decide), trivial, rfl⟩
  exact ⟨_, h3, rfl, (heap_wellShaped layout512 (by decide) _ _ h3).1⟩

end MicroKernel.Heap
