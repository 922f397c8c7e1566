import MicroKernel.Heap.Use

set_option autoImplicit false

/-! # `k_realloc` keeps the data

A `k_realloc` that moves a block writes headers in three places: in the block it gives out, in the
block it frees, and in a free list predecessor of that one. None of them is a byte of another used
block (`takeBlock_used`, `FreeWrites.used`), and none is a byte of the copy.
-/

namespace MicroKernel.Heap

open MicroKernel.Lib MicroKernel.Libc Bytes

section

variable {L : Layout} {r : Run} {bs : List Block} {b : Block} {n : Nat}

/-- A larger size: the bytes of `b` are at the new place, and the other used blocks have all of
theirs, headers included. -/
theorem Inv.realloc_data (h : Inv L r bs) (hb : b ∈ bs) (hf : b.free = false) (hn : b.size < n)
    (hs : FromFreeList r.heap n) :
    ∃ s' q bs', kRealloc L r.heap (b.addr + blockSize) n = some (s', q) ∧
      Inv L ⟨s', (q, n) :: drop r.live (b.addr + blockSize)⟩ bs' ∧
      (∀ i, i < b.size → s'.mem (q + i) = r.heap.mem (b.addr + blockSize + i)) ∧
      ∀ c ∈ bs, c.free = false → c ≠ b → ∀ x, c.addr ≤ x → x < c.stop blockSize →
        s'.mem x = r.heap.mem x := by
  have hB : blockSize = 12 := rfl
  have hp := h.placed
  obtain ⟨g, bs₁, pre, post, m', ha, hg, hgf, hgn, hgb, rfl, hp₁, hk, hi, hw, -⟩ :=
    h.realloc hb hf hn hs
  have hb₁ : b ∈ pre ++ b :: post := by simp
  have hstop := hp₁.stop_lt g hg
  have hstop' := hp₁.stop_lt b hb₁
  simp only [Block.stop] at hstop hstop'
  refine ⟨_, _, _, hk, hi, fun i hlt => ?_, fun c hc hcf hcb x hlo hhi => ?_⟩
  · -- the copy lies in the payload of `g`, which the release does not touch
    have hfree := hw.used hp₁ hg hgf hgb (x := g.addr + blockSize + i) (by omega)
      (by simp only [Block.stop]; omega)
    calc m' (g.addr + blockSize + i)
        = memmove (takeBlock r.heap.mem n g.addr) (g.addr + blockSize) (b.addr + blockSize) b.size
            (g.addr + blockSize + i) := hfree
      _ = takeBlock r.heap.mem n g.addr (b.addr + blockSize + i) :=
          memmove_copied _ (by omega) (by omega) hlt
      _ = r.heap.mem (b.addr + blockSize + i) :=
          takeBlock_used h.seg hp ha hb hf (by omega) (by simp only [Block.stop]; omega)
  · have hc₁ := mem_alloc_of_used ha hc hcf
    -- `g` is a free block cut up, so it is not a block that was used before
    have hgc : c ≠ g := by
      rintro rfl
      obtain ⟨p, e, t, rfl, -, he, heq, -⟩ := alloc_eq_some ha
      have hce := hp.eq_of_addr hc (show e ∈ p ++ e :: t by simp) heq
      exact absurd he.1 (by simp [← hce, hcf])
    have hsymm : Std.Symm (Block.Apart blockSize) := ⟨fun x y hxy => Or.symm hxy⟩
    have hap := hp₁.apart.forall hc₁ hg hgc
    simp only [Block.Apart, Block.stop] at hap hhi
    calc m' x
        = memmove (takeBlock r.heap.mem n g.addr) (g.addr + blockSize) (b.addr + blockSize) b.size
            x := hw.used hp₁ hc₁ hcf hcb hlo hhi
      _ = takeBlock r.heap.mem n g.addr x := memmove_outside _ (by omega) (by omega)
      _ = r.heap.mem x := takeBlock_used h.seg hp ha hc hcf hlo hhi

end

/-- The header of a live pointer is that of a used block of the list. -/
theorem Inv.block_of_live {L : Layout} {r : Run} {bs : List Block} (h : Inv L r bs) {ptr : Nat}
    (hl : ptr ∈ r.live.map Prod.fst) :
    ∃ b ∈ bs, b.free = false ∧ ptr = b.addr + blockSize ∧ usub ptr blockSize = b.addr ∧
      sizeAt r.heap.mem (usub ptr blockSize) = b.size := by
  have hp := h.placed
  obtain ⟨pre, b, post, rfl, hf, rfl⟩ := h.owned.split hl
  have hstop := hp.stop_lt b (by simp)
  simp only [Block.stop] at hstop
  refine ⟨b, by simp, hf, rfl, ?_, sizeAt_live h.seg hp⟩
  rw [usub_of_le (by omega) (by omega), Nat.add_sub_cancel]

/-- **`k_realloc` preserves data.** In every state that a run served from the free list can reach,
whatever the memory around the headers holds, resizing a live pointer returns a used block with
room for the new size, whose first bytes are those of the old one; every byte of the other live
blocks and of their headers is what it was. -/
theorem realloc_preserves (L : Layout) (hL : L.totalMemory ≠ 0) (mem : Bytes) (r : Run)
    (h : Relation.ReflTransGen (UseStep L) (boot L mem) r) (ptr n : Nat)
    (hl : ptr ∈ r.live.map Prod.fst) (hn : 0 < n) (hs : Served r.heap (.realloc ptr n)) :
    ∃ s' q bs', kRealloc L r.heap ptr n = some (s', q) ∧
      walk s'.mem steps s'.freeList = some bs' ∧
      (∃ g ∈ bs', g.free = false ∧ q = g.addr + blockSize ∧ n ≤ g.size) ∧
      (∀ i, i < min (sizeAt r.heap.mem (usub ptr blockSize)) n →
        s'.mem (q + i) = r.heap.mem (ptr + i)) ∧
      ∀ other ∈ r.live.map Prod.fst, other ≠ ptr →
        ∀ i, i < blockSize + sizeAt r.heap.mem (usub other blockSize) →
          s'.mem (usub other blockSize + i) = r.heap.mem (usub other blockSize + i) := by
  obtain ⟨bs, hi, -⟩ := inv_used hL h
  have hp := hi.placed
  obtain ⟨b, hb, hf, rfl, -, hsize⟩ := hi.block_of_live hl
  have hptr := hi.owned.ne_zero hl
  by_cases hle : n ≤ b.size
  · -- the block has room already
    refine ⟨r.heap, b.addr + blockSize, bs, ?_, walk_eq hi.seg hp.pos hp.length_lt,
      ⟨b, hb, hf, rfl, hle⟩, fun _ _ => rfl, fun _ _ _ _ _ => rfl⟩
    rw [kRealloc, if_neg hptr, if_neg (by omega)]
    simp only [hsize, if_pos hle]
  · have hserved := hs (Or.inr ⟨by omega, by omega⟩)
    obtain ⟨s', q, bs', hk, hi', hdata, hothers⟩ := hi.realloc_data hb hf (by omega) hserved
    have hp' := hi'.placed
    refine ⟨s', q, bs', hk, walk_eq hi'.seg hp'.pos hp'.length_lt,
      hi'.owned.block (q, n) (by simp), fun i hlt => ?_, fun other ho hne i hlt => ?_⟩
    · rw [hsize] at hlt
      exact hdata i (by omega)
    · obtain ⟨c, hc, hcf, rfl, hca, hcs⟩ := hi.block_of_live ho
      rw [hcs] at hlt
      rw [hca]
      refine hothers c hc hcf (fun hcb => hne (by rw [hcb])) _ (Nat.le_add_right _ _) ?_
      simp only [Block.stop]
      omega

/-- Three blocks with data in them; the first one has to move behind the others. -/
theorem realloc_preserves_three :
    ∃ r s' q, Relation.ReflTransGen (UseStep layout512) (boot layout512 fun _ => 0) r ∧
      r.live.map Prod.fst = [0x0020408c, 0x0020407c, 0x0020400c] ∧
      r.heap.mem 0x0020400c = 7 ∧ kRealloc layout512 r.heap 0x0020400c 200 = some (s', q) ∧
      s'.mem q = 7 := by
  have h1 : Relation.ReflTransGen (UseStep layout512) (boot layout512 fun _ => 0) _ :=
    .single (.call ⟨.malloc 100, trivial, ⟨0x00204000, by decide, rfl⟩, rfl⟩)
  have h2 := h1.tail (.call ⟨.malloc 4, trivial, ⟨0x00204070, by decide, rfl⟩, rfl⟩)
  have h3 := h2.tail (.call ⟨.malloc 10, trivial, ⟨0x00204080, by decide, rfl⟩, rfl⟩)
  -- the owner of the first block writes to it
  have h4 := h3.tail (UseStep.store (a := 0x0020400c) 7 (by
    intro bs hw
    obtain rfl : [⟨0x00204000, 100, false⟩, ⟨0x00204070, 4, false⟩, ⟨0x00204080, 10, false⟩,
      ⟨0x00204096, 0x0edfbf5e, true⟩] = bs := Option.some.inj hw
    simp [OffHeaders, blockSize]))
  obtain ⟨s', q, -, hk, -, -, hdata, -⟩ := realloc_preserves layout512 (by decide) _ _ h4
    0x0020400c 200 (by decide) (by decide) (fun _ => ⟨0x00204096, by decide, rfl⟩)
  exact ⟨_, s', q, h4, rfl, rfl, hk, hdata 0 (by decide)⟩

end MicroKernel.Heap
