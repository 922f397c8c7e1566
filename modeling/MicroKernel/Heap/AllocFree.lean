import MicroKernel.Heap.Use

set_option autoImplicit false

/-! # Allocating and freeing

A `k_malloc` that splits a block leaves a free rest behind the block it gives out; one that does
not split leaves a neighbour that is not free, since the list is coalesced. In both cases the
`k_free` that follows finds exactly what it needs to rebuild the block (`release_alloc`), so the
headers are what they were and the same request gets the same address.
-/

namespace MicroKernel.Heap

open MicroKernel.Lib Bytes

/-- The flags after giving out the block at `a` and taking it back: that of the block is `1`, and
no other has changed. -/
theorem flags_restored {m m' : Bytes} {n p : Nat} {pre post : List Block} {b : Block}
    (hs : Seg m p (pre ++ b :: post) 0) (hp : Placed (pre ++ b :: post)) (hf : b.Fits n)
    (hfl : Flagged m (pre ++ b :: post))
    (hw : FreeWrites (takeBlock m n b.addr) m' pre (b.given blockSize n)) :
    ∀ c ∈ pre ++ b :: post, freeAt m' c.addr = freeAt m c.addr := by
  obtain ⟨q, -, hb⟩ := seg_append.mp hs
  have hsz : sizeAt m b.addr = b.size := hb.1 ▸ hb.2.1
  have hset : freeAt m b.addr ≠ 0 := (hb.1 ▸ hb.2.2.1).mpr hf.1
  have hflag := hfl b (by simp)
  have hsymm : Std.Symm (Block.Apart blockSize) := ⟨fun x y hxy => Or.symm hxy⟩
  intro c hc
  by_cases hcb : c = b
  · rw [hcb]
    calc freeAt m' b.addr = 1 := hw.flag
      _ = freeAt m b.addr := by omega
  · have hap := hp.apart.forall hc (by simp) hcb
    have htake : freeAt (takeBlock m n b.addr) c.addr = freeAt m c.addr := by
      refine freeAt_congr fun i hi => takeBlock_outside (hp.pos b (by simp))
        (Nat.le_of_lt (hp.stop_lt b (by simp))) hsz hf.2 ?_
      simp only [Block.Apart, Block.stop] at hap ⊢
      omega
    have hhead : c.addr + blockSize ≤ b.addr ∨ b.addr + blockSize ≤ c.addr := headers_apart hap
    rw [← htake]
    refine hw.freeAt_eq hhead fun l hl _ => ?_
    by_cases hcl : c = l
    · exact Or.inl (by rw [hcl])
    · have hmem : l ∈ pre := List.mem_of_getLast? hl
      exact Or.inr (headers_apart (hp.apart.forall hc (by simp [hmem]) hcl))

/-- A `k_malloc` served from the list and the `k_free` of what it returned. -/
theorem Inv.alloc_free {L : Layout} {r : Run} {bs bs' : List Block} (h : Inv L r bs)
    (hfl : Flagged r.heap.mem bs) {n a : Nat}
    (ha : MicroKernel.Lib.alloc blockSize n bs = some (a, bs')) :
    ∃ m', kFree { r.heap with mem := takeBlock r.heap.mem n a } (a + blockSize)
        = some { r.heap with mem := m' } ∧
      Seg m' r.heap.freeList bs 0 ∧ ∀ c ∈ bs, freeAt m' c.addr = freeAt r.heap.mem c.addr := by
  have hback := release_alloc (show 0 < blockSize by decide) h.tiled h.coalesced ha
  have h1 := h.alloc ha
  obtain ⟨pre, b, post, rfl, -, hf, rfl, rfl⟩ := alloc_eq_some ha
  obtain ⟨rest, hsplit, -⟩ :=
    absorb_split (h := blockSize) hf (List.isChain_append.mp h.coalesced).2.1
  rw [hsplit, List.cons_append] at h1 hback
  obtain ⟨m', hk, h2, hw⟩ := h1.release rfl
  have hseg : Seg m' r.heap.freeList (pre ++ b :: post) 0 := hback ▸ h2.seg
  exact ⟨m', hk, hseg, flags_restored h.seg h.placed hf hfl hw⟩

/-- **Allocate and free.** In every state that a run served from the free list can reach, a
`k_malloc` that the free list can serve and the `k_free` of its result leave every header as it
was, and the next `k_malloc` of that size returns the same pointer. -/
theorem malloc_free_restores (L : Layout) (hL : L.totalMemory ≠ 0) (mem : Bytes) (r : Run)
    (h : Relation.ReflTransGen (UseStep L) (boot L mem) r) (n : Nat)
    (hs : FromFreeList r.heap n) :
    ∃ s₁ p s₂ s₃ hdrs, kMalloc L r.heap n = some (s₁, p) ∧ p ≠ 0 ∧ kFree s₁ p = some s₂ ∧
      s₂.freeList = r.heap.freeList ∧
      headers r.heap.mem steps r.heap.freeList = some hdrs ∧
      headers s₂.mem steps s₂.freeList = some hdrs ∧
      kMalloc L s₂ n = some (s₃, p) := by
  obtain ⟨bs, hi, hfl⟩ := inv_used hL h
  have hp := hi.placed
  obtain ⟨a, bs', ha⟩ := (fromFreeList_iff hi.seg hp).mp hs
  obtain ⟨m', hk, hseg, hflags⟩ := hi.alloc_free hfl ha
  obtain ⟨hdrs, hh⟩ := exists_headers hi.seg hp.length_lt
  refine ⟨_, _, _, _, hdrs, kMalloc_served hi.seg hp ha, by simp [blockSize], hk, rfl, hh, ?_,
    kMalloc_served hseg hp ha⟩
  rw [headers_eq hi.seg hseg hflags]
  exact hh

/-- A request that splits a hole between two blocks. -/
theorem malloc_free_restores_hole :
    ∃ r s₁ s₂ s₃, Relation.ReflTransGen (UseStep layout512) (boot layout512 fun _ => 0) r ∧
      r.live = [(0x0020407c, 50)] ∧ kMalloc layout512 r.heap 10 = some (s₁, 0x0020400c) ∧
      kFree s₁ 0x0020400c = some s₂ ∧ kMalloc layout512 s₂ 10 = some (s₃, 0x0020400c) := by
  have h1 : Relation.ReflTransGen (UseStep layout512) (boot layout512 fun _ => 0) _ :=
    .single (.call ⟨.malloc 100, trivial, ⟨0x00204000, by decide, rfl⟩, rfl⟩)
  have h2 := h1.tail (.call ⟨.malloc 50, trivial, ⟨0x00204070, by decide, rfl⟩, rfl⟩)
  have h3 := h2.tail (.call ⟨.free 0x0020400c, Or.inr (by decide), trivial, rfl⟩)
  obtain ⟨s₁, p, s₂, s₃, -, hm, -, hk, -, -, -, hm'⟩ :=
    malloc_free_restores layout512 (by decide) _ _ h3 10 ⟨0x00204000, by decide, rfl⟩
  obtain rfl : 0x0020400c = p := Option.some.inj (congrArg (Option.map Prod.snd) hm)
  exact ⟨_, s₁, s₂, s₃, h3, rfl, hm, hk, hm'⟩

end MicroKernel.Heap
