import MicroKernel.Heap.Invariant

set_option autoImplicit false

/-! # The heap when the free list is exhausted

When no free block fits, `k_malloc` takes a frame from `allocate_frame` and hangs it behind the
list as one more block. The frame allocator starts at frame 1 and knows neither the kernel image
nor the bitmap nor the heap, and `k_free` merges list neighbours whether or not they meet in
memory.

Both are harmless as long as no call takes a frame that reaches into the kernel image
(`FallbackSafe`) and no freed block has a free list neighbour on the other side of the seam
between `HEAP_END` and the first frame (`SeamSafe`). Then the list is a tiling of the heap
followed by a tiling of the frames taken so far (`FallbackInv`).
-/

namespace MicroKernel.Heap

open MicroKernel.Lib MicroKernel.Libc Bytes

/-! ## Safety of a state and of a `k_free` -/

/-- What the heap owes the rest of the kernel in a state whose list is `bs`. -/
structure HeapSafe (L : Layout) (r : Run) (bs : List Block) : Prop where
  visits : walk r.heap.mem steps r.heap.freeList = some bs
  apart : bs.Pairwise (Block.Apart blockSize)
  offBitmap : ∀ b ∈ bs,
    b.stop blockSize ≤ r.heap.frameBitmap ∨ r.heap.frameBitmap + L.bitmapSize ≤ b.addr
  offKernel : ∀ b ∈ bs, b.stop blockSize ≤ kernelBase ∨ L.kernelEnd ≤ b.addr
  sized : ∀ e ∈ r.live, ∃ b ∈ bs, b.free = false ∧ e.1 = b.addr + blockSize ∧ e.2 ≤ b.size
  disjoint : r.live.Pairwise fun e f => ∀ b ∈ bs, ∀ c ∈ bs,
    e.1 = b.addr + blockSize → f.1 = c.addr + blockSize → b.Apart blockSize c

/-- `k_free(ptr)` merges list neighbours only when they meet in memory: a block that is gone
from the list afterwards began where its list predecessor ended. -/
def MergesAdjacent (s : State) (ptr : Nat) : Prop :=
  ∀ s' bs bs', kFree s ptr = some s' → walk s.mem steps s.freeList = some bs →
    walk s'.mem steps s'.freeList = some bs' →
    bs.IsChain fun b c => c.addr ∈ bs'.map Block.addr ∨ b.stop blockSize = c.addr

/-- The calls of `k_free` that a call makes: the heap at that moment and the argument. -/
def freesOf (L : Layout) (r : Run) : Call → List (State × Nat)
  | .malloc _ => []
  | .free ptr => [(r.heap, ptr)]
  | .realloc ptr size =>
      if ptr = 0 then []
      else if size = 0 then [(r.heap, ptr)]
      else if size ≤ sizeAt r.heap.mem (usub ptr blockSize) then []
      else match kMalloc L r.heap size with
        | none => []
        | some q => if q.2 = 0 then [] else [(reallocCopied r.heap ptr size q, ptr)]

/-- One call within the callers' contract. -/
def AllowedStep (L : Layout) (r r' : Run) : Prop := ∃ c, r.Allows c ∧ r.call L c = some r'

/-- The heap is safe in every state reached by `step`, and in the calls that may follow. -/
def SafeUnder (L : Layout) (mem : Bytes) (step : Run → Run → Prop) (may : Run → Call → Prop) :
    Prop :=
  ∀ r, Relation.ReflTransGen step (boot L mem) r →
    (∃ bs, HeapSafe L r bs) ∧
      ∀ c, r.Allows c → may r c → ∀ q ∈ freesOf L r c, MergesAdjacent q.1 q.2

/-! ## When nothing goes wrong -/

/-- Every frame that `k_malloc(size)` takes ends below the kernel image. A request that fits a
frame takes the lowest clear frame; a larger one takes all clear frames, one after another. -/
def FallbackSafe (L : Layout) (s : State) (size : Nat) : Prop :=
  FromFreeList s size ∨
    ∀ i, 1 ≤ i → i < L.totalMemory / frameSize → testFrame s i = false →
      (size + blockSize ≤ frameSize → ∀ j, 1 ≤ j → j < i → testFrame s j = true) →
      (i + 1) * frameSize ≤ kernelBase

/-- The block of `ptr` has no free list neighbour across the seam between the heap and the
frames. -/
def SeamSafe (s : State) (ptr : Nat) : Prop :=
  ∀ pre b post, walk s.mem steps s.freeList = some (pre ++ b :: post) →
    ptr = b.addr + blockSize →
    (b.stop blockSize = heapEnd → ∀ c ∈ post.head?, c.free = false) ∧
    (b.addr = frameSize → ∀ c ∈ pre.getLast?, c.free = false)

/-- The call takes no frame of the kernel image and frees nothing at the seam. -/
def SafeCall (L : Layout) (r : Run) (c : Call) : Prop :=
  (match c with
    | .malloc size => FallbackSafe L r.heap size
    | .free _ => True
    | .realloc ptr size =>
        ptr = 0 ∨ (size ≠ 0 ∧ sizeAt r.heap.mem (usub ptr blockSize) < size) →
          FallbackSafe L r.heap size) ∧
  ∀ q ∈ freesOf L r c, SeamSafe q.1 q.2

def SafeStep (L : Layout) (r r' : Run) : Prop :=
  ∃ c, r.Allows c ∧ SafeCall L r c ∧ r.call L c = some r'

/-! ## Frames -/

theorem testFrame_setFrame (s : State) (i j : Nat) :
    testFrame (setFrame s i) j = (testFrame s j || decide (j = i)) := by
  unfold testFrame setFrame
  dsimp only
  by_cases hb : j / 8 = i / 8
  · rw [hb, store8_same]
    set v := (s.mem (s.frameBitmap + i / 8)).toNat with hv
    have hv8 : v < 2 ^ 8 := (s.mem (s.frameBitmap + i / 8)).toNat_lt
    have hp8 : 2 ^ (i % 8) < 2 ^ 8 := Nat.pow_lt_pow_right (by decide) (by omega)
    rw [UInt8.toNat_ofNat', Nat.mod_eq_of_lt (Nat.or_lt_two_pow hv8 hp8), Nat.testBit_or,
      Nat.testBit_two_pow]
    congr 1
    rw [decide_eq_decide]
    omega
  · rw [store8_ne _ _ (by omega)]
    have : j ≠ i := fun h => hb (by rw [h])
    simp [this]

/-- A scan finds the first frame behind a full prefix. -/
theorem scanFrames_eq {s : State} {k : Nat} (n i : Nat) (hi : i ≤ k + 1)
    (hf : ∀ j, j < i + n → testFrame s j = decide (j ≤ k)) :
    scanFrames s n i = if k + 1 < i + n then some (k + 1) else none := by
  induction n generalizing i with
  | zero => simp [scanFrames]; omega
  | succ n ih =>
      rw [scanFrames, hf i (by omega)]
      by_cases hik : i ≤ k
      · simp only [hik, decide_true, if_true]
        rw [ih (i + 1) (by omega) (fun j hj => hf j (by omega))]
        congr 1
        simp only [eq_iff_iff]
        omega
      · have : i = k + 1 := by omega
        simp [this]

/-! ## The invariant -/

/-- The list is a tiling `xs` of the heap followed by a tiling `ys` of frames `1` to `k`, the
frames `0` to `k` are the ones taken, and they end below the kernel image. -/
structure FallbackInv (L : Layout) (r : Run) (xs ys : List Block) (k : Nat) : Prop where
  bitmap : r.heap.frameBitmap = L.heapStart
  seg : Seg r.heap.mem r.heap.freeList (xs ++ ys) 0
  heapTiled : Tiled blockSize L.freelistStart heapEnd xs
  frameTiled : Tiled blockSize frameSize ((k + 1) * frameSize) ys
  below : (k + 1) * frameSize ≤ kernelBase
  frames : ∀ i, i < L.totalMemory / frameSize → testFrame r.heap i = decide (i ≤ k)
  owned : Owned r.live (xs ++ ys)

/-- Where the heap, the bitmap and the kernel image are. -/
theorem Layout.order (L : Layout) :
    kernelBase < L.kernelEnd ∧ L.kernelEnd ≤ L.heapStart ∧
      L.heapStart + L.bitmapSize = L.freelistStart ∧
      ∀ i, i < L.totalMemory / frameSize → L.heapStart + i / 8 < L.freelistStart := by
  refine ⟨L.kernelBase_lt, ?_, rfl, ?_⟩
  · simp only [Layout.heapStart, alignUp16]
    omega
  · intro i hi
    simp only [Layout.freelistStart, Layout.bitmapSize, alignUp16]
    omega

/-- The same of the memory alone. For the list and the bitmap it is enough that the frames taken
end below the bitmap, whatever becomes of the kernel image. -/
structure TakenFrames (L : Layout) (s : State) (xs ys : List Block) (k : Nat) : Prop where
  bitmap : s.frameBitmap = L.heapStart
  seg : Seg s.mem s.freeList (xs ++ ys) 0
  heapTiled : Tiled blockSize L.freelistStart heapEnd xs
  frameTiled : Tiled blockSize frameSize ((k + 1) * frameSize) ys
  below : (k + 1) * frameSize ≤ L.heapStart
  frames : ∀ i, i < L.totalMemory / frameSize → testFrame s i = decide (i ≤ k)

section taken

variable {L : Layout} {s : State} {xs ys : List Block} {k : Nat}

/-- The blocks made of frames lie between frame 0 and the last one taken. -/
theorem frame_bounds {top : Nat} (ht : Tiled blockSize frameSize top ys) {b : Block} (hb : b ∈ ys) :
    0 < b.addr ∧ b.stop blockSize ≤ top := by
  obtain ⟨hlo, hhi⟩ := ht.mem_bounds hb
  simp only [frameSize] at hlo
  exact ⟨by omega, hhi⟩

theorem TakenFrames.ys_bounds (h : TakenFrames L s xs ys k) {b : Block} (hb : b ∈ ys) :
    0 < b.addr ∧ b.stop blockSize ≤ L.heapStart :=
  (frame_bounds h.frameTiled hb).imp_right fun hstop => Nat.le_trans hstop h.below

theorem TakenFrames.xs_bounds (h : TakenFrames L s xs ys k) {b : Block} (hb : b ∈ xs) :
    L.freelistStart ≤ b.addr ∧ b.stop blockSize ≤ heapEnd := h.heapTiled.mem_bounds hb

theorem TakenFrames.placed (h : TakenFrames L s xs ys k) : Placed (xs ++ ys) := by
  have hL := L.freelistStart_bounds
  obtain ⟨o1, o2, o3, -⟩ := L.order
  have hx := placed_of_tiled h.heapTiled (by simp only [kernelBase] at hL; omega) (by decide)
  have hy := placed_of_tiled h.frameTiled (by decide) (by
    have hbelow := h.below
    simp only [heapEnd] at hL
    omega)
  refine ⟨?_, ?_, List.pairwise_append.mpr ⟨hx.apart, hy.apart, ?_⟩⟩
  · intro b hb
    rcases List.mem_append.mp hb with hb | hb
    · exact hx.pos b hb
    · exact hy.pos b hb
  · intro b hb
    rcases List.mem_append.mp hb with hb | hb
    · exact hx.stop_lt b hb
    · exact hy.stop_lt b hb
  · intro b hb c hc
    have h1 := h.xs_bounds hb
    have h2 := h.ys_bounds hc
    exact Or.inr (by omega)

/-- The bytes of the bitmap belong to no block. -/
theorem TakenFrames.bitmap_outside (h : TakenFrames L s xs ys k) {i : Nat}
    (hi : i < L.totalMemory / frameSize) {b : Block} (hb : b ∈ xs ++ ys) :
    L.heapStart + i / 8 < b.addr ∨ b.stop blockSize ≤ L.heapStart + i / 8 := by
  obtain ⟨h1, h2, -, h4⟩ := L.order
  have h5 := h4 i hi
  rcases List.mem_append.mp hb with hb | hb
  · have := h.xs_bounds hb
    exact Or.inl (by omega)
  · have := h.ys_bounds hb
    exact Or.inr (by omega)

/-- The frames are known by the bytes of the bitmap. -/
theorem TakenFrames.frames_congr (h : TakenFrames L s xs ys k) {m : Bytes}
    (hm : ∀ i, i < L.totalMemory / frameSize →
      m (L.heapStart + i / 8) = s.mem (L.heapStart + i / 8)) :
    ∀ i, i < L.totalMemory / frameSize →
      testFrame { s with mem := m } i = decide (i ≤ k) := by
  intro i hi
  rw [← h.frames i hi]
  simp only [testFrame, h.bitmap, hm i hi]

end taken

section

variable {L : Layout} {r : Run} {xs ys : List Block} {k : Nat}

/-- The kernel image begins below the bitmap. -/
theorem FallbackInv.taken (h : FallbackInv L r xs ys k) : TakenFrames L r.heap xs ys k where
  bitmap := h.bitmap
  seg := h.seg
  heapTiled := h.heapTiled
  frameTiled := h.frameTiled
  below := by
    obtain ⟨o1, o2, -, -⟩ := L.order
    have hbelow := h.below
    omega
  frames := h.frames

theorem FallbackInv.placed (h : FallbackInv L r xs ys k) : Placed (xs ++ ys) := h.taken.placed

theorem FallbackInv.ys_bounds (h : FallbackInv L r xs ys k) {b : Block} (hb : b ∈ ys) :
    0 < b.addr ∧ b.stop blockSize ≤ kernelBase :=
  (frame_bounds h.frameTiled hb).imp_right fun hstop => Nat.le_trans hstop h.below

theorem FallbackInv.xs_bounds (h : FallbackInv L r xs ys k) {b : Block} (hb : b ∈ xs) :
    L.freelistStart ≤ b.addr ∧ b.stop blockSize ≤ heapEnd := h.taken.xs_bounds hb

theorem FallbackInv.bitmap_outside (h : FallbackInv L r xs ys k) {i : Nat}
    (hi : i < L.totalMemory / frameSize) {b : Block} (hb : b ∈ xs ++ ys) :
    L.heapStart + i / 8 < b.addr ∨ b.stop blockSize ≤ L.heapStart + i / 8 :=
  h.taken.bitmap_outside hi hb

theorem FallbackInv.frames_congr (h : FallbackInv L r xs ys k) {m : Bytes}
    (hm : ∀ i, i < L.totalMemory / frameSize →
      m (L.heapStart + i / 8) = r.heap.mem (L.heapStart + i / 8)) :
    ∀ i, i < L.totalMemory / frameSize →
      testFrame { r.heap with mem := m } i = decide (i ≤ k) :=
  h.taken.frames_congr hm

theorem FallbackInv.heapSafe (h : FallbackInv L r xs ys k) : HeapSafe L r (xs ++ ys) := by
  have hp := h.placed
  obtain ⟨h1, h2, h3, -⟩ := L.order
  refine ⟨walk_eq h.seg hp.pos hp.length_lt, hp.apart, ?_, ?_, h.owned.block, ?_⟩
  · intro b hb
    rw [h.bitmap]
    rcases List.mem_append.mp hb with hb | hb
    · have := h.xs_bounds hb
      exact Or.inr (by omega)
    · have := h.ys_bounds hb
      exact Or.inl (by omega)
  · intro b hb
    rcases List.mem_append.mp hb with hb | hb
    · have := h.xs_bounds hb
      exact Or.inr (by omega)
    · exact Or.inl (h.ys_bounds hb).2
  · have hnd : r.live.Pairwise fun e f => e.1 ≠ f.1 := List.pairwise_map.mp h.owned.nodup
    refine hnd.imp fun {e f} hef b hb c hc h1 h2 => ?_
    have : Std.Symm (Block.Apart blockSize) := ⟨fun x y hxy => Or.symm hxy⟩
    refine hp.apart.forall hb hc fun hbc => ?_
    rw [hbc] at h1
    omega

end

theorem fallbackInv_boot (L : Layout) (hL : L.totalMemory ≠ 0) (mem : Bytes) :
    FallbackInv L (boot L mem)
      [{ addr := L.freelistStart, size := heapEnd - L.freelistStart - blockSize,
         free := true }] [] 0 := by
  have hi := inv_boot L hL mem
  refine ⟨by simp [boot, initializeMemorySystem, if_neg hL, setFrame],
    by simpa using hi.seg, hi.tiled, ?_, by decide, ?_, by simpa using hi.owned⟩
  · show frameSize = (0 + 1) * frameSize
    omega
  · intro i hlt
    obtain ⟨-, -, h3, h4⟩ := L.order
    have h5 := h4 i hlt
    simp only [boot, initializeMemorySystem, if_neg hL]
    -- the header of the first block lies behind the bitmap
    set s0 : State := setFrame ⟨fill mem L.heapStart L.bitmapSize 0, 0, L.heapStart⟩ 0 with hs0
    have hfb : s0.frameBitmap = L.heapStart := rfl
    have ht : ∀ (m : Bytes) (fl : Nat), m (L.heapStart + i / 8) = s0.mem (L.heapStart + i / 8) →
        testFrame ⟨m, fl, s0.frameBitmap⟩ i = testFrame s0 i := by
      intro m fl hm
      simp only [testFrame, hfb, hm]
    rw [ht _ _ (by rw [store32_outside _ _ (by omega), store32_outside _ _ (by omega),
      store32_outside _ _ (by omega)]), hs0, testFrame_setFrame]
    simp only [testFrame]
    rw [fill_inside _ _ (by omega) (by omega)]
    simp

/-! ## Appending a frame -/

theorem findLast_eq {m : Bytes} {p : Nat} {bs : List Block} {l : Block}
    (hs : Seg m p (bs ++ [l]) 0) (hpos : ∀ b ∈ bs ++ [l], 0 < b.addr) {k : Nat}
    (hk : (bs ++ [l]).length < k) : findLast m k p = some l.addr := by
  induction bs generalizing p k with
  | nil =>
      obtain ⟨k, rfl⟩ : ∃ k', k = k' + 1 := ⟨k - 1, by simp at hk; omega⟩
      obtain ⟨rfl, -, -, h4⟩ := hs
      rw [findLast, if_pos (show nextAt m l.addr = 0 from h4)]
  | cons b bs ih =>
      obtain ⟨k, rfl⟩ : ∃ k', k = k' + 1 := ⟨k - 1, by simp at hk; omega⟩
      obtain ⟨rfl, -, -, h4⟩ := hs
      have hn : nextAt m b.addr ≠ 0 := by
        have h5 := Seg.head h4
        rw [h5]
        cases bs with
        | nil =>
            have := hpos l (by simp)
            simpa using Nat.ne_of_gt this
        | cons c cs =>
            have := hpos c (by simp)
            simpa using Nat.ne_of_gt this
      rw [findLast, if_neg hn]
      exact ih h4 (fun c hc => hpos c (List.mem_cons_of_mem _ hc)) (by simp at hk ⊢; omega)

/-- Hanging a block behind the list: its header and the last `next` are written. -/
theorem appendFrame_refines {s : State} {bs : List Block} {l : Block} {f : Nat}
    (hs : Seg s.mem s.freeList (bs ++ [l]) 0) (hp : Placed (bs ++ [l])) (hf : f < 2 ^ 32)
    (hap : ∀ b ∈ bs ++ [l], b.addr + blockSize ≤ f ∨ f + blockSize ≤ b.addr) :
    ∃ m', appendFrame s f = some { s with mem := m' } ∧
      Seg m' s.freeList
        (bs ++ [l] ++ [{ addr := f, size := frameSize - blockSize, free := true }]) 0 ∧
      ∀ x, OffHeaders (bs ++ [l]) x → (x < f ∨ f + blockSize ≤ x) → m' x = s.mem x := by
  have hB : blockSize = 12 := rfl
  set m := store32 (store32 (store32 s.mem f (frameSize - blockSize)) (f + 4) 1) (f + 8) 0
    with hm
  have hout : ∀ x, (x < f ∨ f + blockSize ≤ x) → m x = s.mem x := by
    intro x hx
    rw [hm, store32_outside _ _ (by omega), store32_outside _ _ (by omega),
      store32_outside _ _ (by omega)]
  -- the header of the new block touches none of the list
  have hs1 : Seg m s.freeList (bs ++ [l]) 0 := by
    refine hs.congr fun b hb i hi => hout _ ?_
    have := hap b hb
    omega
  have hlast : findLast m steps s.freeList = some l.addr := findLast_eq hs1 hp.pos hp.length_lt
  have hl := hap l (by simp)
  refine ⟨store32 m (l.addr + 8) f, ?_, ?_, ?_⟩
  · unfold appendFrame
    simp only [← hm, hlast, Option.map_some]
  · obtain ⟨r, h1, h2⟩ := seg_append.mp hs1
    obtain ⟨rfl, h3, h4, h5⟩ := h2
    have hkeep : ∀ x, (x < l.addr + 8 ∨ l.addr + blockSize ≤ x) →
        store32 m (l.addr + 8) f x = m x := fun x hx => store32_outside m f (by omega)
    have hword : ∀ a, (a + 4 ≤ l.addr + 8 ∨ l.addr + blockSize ≤ a) →
        load32 (store32 m (l.addr + 8) f) a = load32 m a := fun a ha =>
      load32_congr fun i hi => hkeep _ (by omega)
    -- all before `l` is unchanged, `l` gets its `next`, and `f` ends the list
    refine seg_append.mpr ⟨f, seg_append.mpr ⟨l.addr, ?_, rfl, ?_, ?_, ?_⟩, rfl, ?_, ?_, ?_⟩
    · refine h1.congr fun b hb i hi => hkeep _ ?_
      have := headers_apart (hp.append_apart b hb l (by simp))
      omega
    · rw [sizeAt, hword _ (by omega)]
      exact h3
    · rw [freeAt, hword _ (by omega)]
      exact h4
    · show nextAt _ _ = f
      rw [nextAt, load32_store32_same, Nat.mod_eq_of_lt hf]
    · rw [sizeAt, hword _ (by omega), hm, load32_store32_ne _ _ (by omega),
        load32_store32_ne _ _ (by omega), load32_store32_same]
      rfl
    · rw [freeAt, hword _ (by omega), hm, load32_store32_ne _ _ (by omega), load32_store32_same]
      simp
    · show nextAt _ _ = 0
      rw [nextAt, hword _ (by omega), hm, load32_store32_same, Nat.zero_mod]
  · intro x hx hxf
    have := hx l (by simp)
    rw [store32_outside _ _ (by omega), hout x hxf]

section taken

variable {L : Layout} {s : State} {xs ys : List Block} {k : Nat}

theorem TakenFrames.scan (h : TakenFrames L s xs ys k) :
    scanFrames s (L.totalMemory / frameSize - 1) 1
      = if k + 1 < L.totalMemory / frameSize then some (k + 1) else none := by
  have hf := h.frames
  generalize L.totalMemory / frameSize = n at hf ⊢
  by_cases h0 : n = 0
  · simp [h0, scanFrames]
  · rw [scanFrames_eq _ 1 (by omega) (fun j hj => hf j (by omega))]
    congr 1
    simp only [eq_iff_iff]
    omega

/-- No frame is left: `k_malloc` fails. -/
theorem TakenFrames.exhausted (h : TakenFrames L s xs ys k)
    (hk : L.totalMemory / frameSize ≤ k + 1) : allocateFrame L s = (s, 0) := by
  rw [allocateFrame, h.scan, if_neg (Nat.not_lt.mpr hk)]

/-- The list ends in some block, since the heap is not empty. -/
theorem TakenFrames.exists_last (h : TakenFrames L s xs ys k) : ∃ bs l, xs ++ ys = bs ++ [l] := by
  rcases List.eq_nil_or_concat (xs ++ ys) with h0 | ⟨bs, l, h1⟩
  · have htiled := h.heapTiled
    rw [(List.append_eq_nil_iff.mp h0).1] at htiled
    have hheader : 0 < blockSize := by decide
    have hroom : L.freelistStart < heapEnd := by
      have hstart := L.freelistStart_bounds
      omega
    exact absurd htiled hroom.ne
  · exact ⟨bs, l, by rw [h1, List.concat_eq_append]⟩

/-- The header of the next frame lies apart from those of the list. -/
theorem TakenFrames.apart_next (h : TakenFrames L s xs ys k)
    (hb : (k + 1) * frameSize + blockSize ≤ L.heapStart) {b : Block} (hmem : b ∈ xs ++ ys) :
    b.addr + blockSize ≤ (k + 1) * frameSize ∨ (k + 1) * frameSize + blockSize ≤ b.addr := by
  obtain ⟨o1, o2, o3, -⟩ := L.order
  rcases List.mem_append.mp hmem with hmem | hmem
  · have hbounds := h.xs_bounds hmem
    exact Or.inr (by omega)
  · have hbounds := (h.frameTiled.mem_bounds hmem).2
    simp only [Block.stop] at hbounds
    exact Or.inl (by omega)

/-- Marking the next frame leaves the list alone. -/
theorem TakenFrames.seg_setFrame (h : TakenFrames L s xs ys k)
    (hk : k + 1 < L.totalMemory / frameSize) :
    Seg (setFrame s (k + 1)).mem s.freeList (xs ++ ys) 0 := by
  have hB : blockSize = 12 := rfl
  refine h.seg.congr fun b hb i hi => ?_
  have hbit := h.bitmap_outside hk hb
  simp only [Block.stop] at hbit
  simp only [setFrame, h.bitmap]
  exact store8_ne _ _ (by omega)

/-- The next frame is marked in the bitmap, which is outside the headers. -/
theorem TakenFrames.testFrame_next (h : TakenFrames L s xs ys k) {m : Bytes}
    (hb : (k + 1) * frameSize + blockSize ≤ L.heapStart)
    (hm : ∀ x, OffHeaders (xs ++ ys) x →
      (x < (k + 1) * frameSize ∨ (k + 1) * frameSize + blockSize ≤ x) →
        m x = (setFrame s (k + 1)).mem x) {i : Nat} (hi : i < L.totalMemory / frameSize) :
    testFrame { setFrame s (k + 1) with mem := m } i = decide (i ≤ k + 1) := by
  have hB : blockSize = 12 := rfl
  obtain ⟨o1, o2, o3, o4⟩ := L.order
  have hbyte : m (L.heapStart + i / 8) = (setFrame s (k + 1)).mem (L.heapStart + i / 8) := by
    refine hm _ (fun b hmem => ?_) (by omega)
    have hbit := h.bitmap_outside hi hmem
    simp only [Block.stop] at hbit
    omega
  have hbitmap : (setFrame s (k + 1)).frameBitmap = L.heapStart := h.bitmap
  calc testFrame { setFrame s (k + 1) with mem := m } i
      = testFrame (setFrame s (k + 1)) i := by simp only [testFrame, hbitmap, hbyte]
    _ = (decide (i ≤ k) || decide (i = k + 1)) := by rw [testFrame_setFrame, h.frames i hi]
    _ = decide (i ≤ k + 1) := by
        rw [Bool.eq_iff_iff]
        simp only [Bool.or_eq_true, decide_eq_true_eq]
        omega

/-- The next frame becomes the last block of the list. -/
theorem TakenFrames.append (h : TakenFrames L s xs ys k)
    (hk : k + 1 < L.totalMemory / frameSize) (hb : (k + 1 + 1) * frameSize ≤ L.heapStart) :
    ∃ s', (appendFrame (allocateFrame L s).1 (allocateFrame L s).2) = some s' ∧
      (allocateFrame L s).2 ≠ 0 ∧
      TakenFrames L s' xs
        (ys ++ [{ addr := (k + 1) * frameSize, size := frameSize - blockSize, free := true }])
        (k + 1) := by
  have hB : blockSize = 12 := rfl
  have hF : frameSize = 4096 := rfl
  obtain ⟨-, hL⟩ := L.freelistStart_bounds
  obtain ⟨-, -, o3, -⟩ := L.order
  simp only [heapEnd] at hL
  have hnext : (k + 1 + 1) * frameSize = (k + 1) * frameSize + 4096 := Nat.succ_mul (k + 1) frameSize
  have hpos : 4096 ≤ (k + 1) * frameSize := Nat.le_mul_of_pos_left frameSize (Nat.succ_pos k)
  have hheader : (k + 1) * frameSize + blockSize ≤ L.heapStart := by omega
  have halloc : allocateFrame L s = (setFrame s (k + 1), (k + 1) * frameSize) := by
    rw [allocateFrame, h.scan, if_pos hk]
  obtain ⟨bs, l, hbs⟩ := h.exists_last
  obtain ⟨m', happend, hseg, hout⟩ := appendFrame_refines (s := setFrame s (k + 1))
    (hbs ▸ h.seg_setFrame hk) (hbs ▸ h.placed) (by omega)
    (fun b hmem => h.apart_next hheader (by rw [hbs]; exact hmem))
  rw [halloc]
  refine ⟨_, happend, by dsimp only; omega, h.bitmap, ?_, h.heapTiled, ?_, hb, ?_⟩
  · rw [← List.append_assoc, hbs]
    exact hseg
  · refine tiled_append.mpr ⟨(k + 1) * frameSize, h.frameTiled, rfl, ?_⟩
    show Block.stop _ _ = _
    simp only [Block.stop]
    omega
  · exact fun i hi => h.testFrame_next hheader (hbs ▸ hout) hi

end taken

section

variable {L : Layout} {r : Run} {xs ys : List Block} {k : Nat}

/-- Nobody owns it. -/
theorem FallbackInv.append (h : FallbackInv L r xs ys k)
    (hk : k + 1 < L.totalMemory / frameSize) (hb : (k + 1 + 1) * frameSize ≤ kernelBase) :
    ∃ s', (appendFrame (allocateFrame L r.heap).1 (allocateFrame L r.heap).2) = some s' ∧
      (allocateFrame L r.heap).2 ≠ 0 ∧
      FallbackInv L ⟨s', r.live⟩ xs
        (ys ++ [{ addr := (k + 1) * frameSize, size := frameSize - blockSize, free := true }])
        (k + 1) := by
  obtain ⟨o1, o2, -, -⟩ := L.order
  obtain ⟨s', happend, hne, ht⟩ := h.taken.append hk (by omega)
  refine ⟨s', happend, hne, ht.bitmap, ht.seg, ht.heapTiled, ht.frameTiled, hb, ht.frames, ?_⟩
  rw [← List.append_assoc]
  exact h.owned.append_free rfl

/-! ## Requests -/

/-- A request that the list can serve. The block is cut out of the heap or out of the frames. -/
theorem FallbackInv.alloc (h : FallbackInv L r xs ys k) {n a : Nat} {bs' : List Block}
    (ha : MicroKernel.Lib.alloc blockSize n (xs ++ ys) = some (a, bs')) :
    ∃ xs' ys', bs' = xs' ++ ys' ∧
      FallbackInv L ⟨{ r.heap with mem := takeBlock r.heap.mem n a }, (a + blockSize, n) :: r.live⟩
        xs' ys' k := by
  have hp := h.placed
  have hframes : ∀ i, i < L.totalMemory / frameSize →
      testFrame { r.heap with mem := takeBlock r.heap.mem n a } i = decide (i ≤ k) := by
    obtain ⟨pre, b, post, hbs, -, hf, rfl, -⟩ := alloc_eq_some ha
    have hb : b ∈ xs ++ ys := by simp [hbs]
    obtain ⟨q, -, hq⟩ := seg_append.mp (hbs ▸ h.seg)
    have hsz : sizeAt r.heap.mem b.addr = b.size := hq.1 ▸ hq.2.1
    refine h.frames_congr fun i hi => ?_
    exact takeBlock_outside (hp.pos b hb) (Nat.le_of_lt (hp.stop_lt b hb)) hsz hf.2
      (h.bitmap_outside hi hb)
  have hseg := takeBlock_refines h.seg hp ha
  have howned := h.owned.alloc hp ha
  cases hx : MicroKernel.Lib.alloc blockSize n xs with
  | some p =>
      obtain ⟨a', xs'⟩ := p
      rw [alloc_append_left ys hx] at ha
      simp only [Option.some.injEq, Prod.mk.injEq] at ha
      obtain ⟨rfl, rfl⟩ := ha
      exact ⟨xs', ys, rfl, h.bitmap, hseg, h.heapTiled.alloc hx, h.frameTiled, h.below, hframes,
        howned⟩
  | none =>
      rw [alloc_append_right ys hx, Option.map_eq_some_iff] at ha
      obtain ⟨⟨a', ys'⟩, hy, heq⟩ := ha
      simp only [Prod.mk.injEq] at heq
      obtain ⟨rfl, rfl⟩ := heq
      exact ⟨xs, ys', rfl, h.bitmap, hseg, h.heapTiled, h.frameTiled.alloc hy, h.below, hframes,
        howned⟩

/-- The result of a request: nothing, or the payload of a block with room for it. -/
def Granted (live : List (Nat × Nat)) (bs : List Block) (n ptr : Nat) : Prop :=
  ptr = 0 ∨ (∃ g ∈ bs, ptr = g.addr + blockSize ∧ n ≤ g.size) ∧ ptr ∉ live.map Prod.fst

theorem FallbackInv.request_served {n a : Nat} {bs' : List Block} (f : Nat)
    (h : FallbackInv L r xs ys k)
    (ha : MicroKernel.Lib.alloc blockSize n (xs ++ ys) = some (a, bs')) :
    ∃ s' ptr xs' ys' k', kMallocRec L n (f + 1) r.heap = some (s', ptr) ∧
      FallbackInv L ⟨s', grant r.live ptr n⟩ xs' ys' k' ∧ Granted r.live (xs' ++ ys') n ptr := by
  obtain ⟨xs', ys', rfl, h'⟩ := h.alloc ha
  have hne : a + blockSize ≠ 0 := by simp [blockSize]
  refine ⟨_, _, xs', ys', k, kMallocRec_served f h.seg h.placed ha, ?_, Or.inr ⟨?_, ?_⟩⟩
  · rw [grant, if_neg hne]
    exact h'
  · obtain ⟨g, hg, -, rfl, hn⟩ := given_mem ha
    exact ⟨g, hg, rfl, hn⟩
  · exact fun hl => h.owned.alloc_ne h.placed ha hl rfl

theorem FallbackInv.request_exhausted {n : Nat} (f : Nat) (h : FallbackInv L r xs ys k)
    (hk : L.totalMemory / frameSize ≤ k + 1)
    (ha : MicroKernel.Lib.alloc blockSize n (xs ++ ys) = none) :
    ∃ s' ptr xs' ys' k', kMallocRec L n (f + 1) r.heap = some (s', ptr) ∧
      FallbackInv L ⟨s', grant r.live ptr n⟩ xs' ys' k' ∧ Granted r.live (xs' ++ ys') n ptr := by
  refine ⟨r.heap, 0, xs, ys, k, ?_, h, Or.inl rfl⟩
  rw [kMallocRec, findFit_list n h.seg h.placed, ha]
  simp [h.taken.exhausted hk]

/-- **A request, whatever it takes.** The induction is on the recursive calls of `k_malloc`:
each takes one more frame, and there are only so many. -/
theorem FallbackInv.request {n : Nat} (f : Nat) (h : FallbackInv L r xs ys k)
    (hf : L.totalMemory / frameSize ≤ k + (f + 1))
    (hs : (∃ p, MicroKernel.Lib.alloc blockSize n (xs ++ ys) = some p) ∨
      ∀ i, k < i → i < L.totalMemory / frameSize → (n + blockSize ≤ frameSize → i = k + 1) →
        (i + 1) * frameSize ≤ kernelBase) :
    ∃ s' ptr xs' ys' k', kMallocRec L n (f + 1) r.heap = some (s', ptr) ∧
      FallbackInv L ⟨s', grant r.live ptr n⟩ xs' ys' k' ∧ Granted r.live (xs' ++ ys') n ptr := by
  induction f generalizing r ys k with
  | zero =>
      cases ha : MicroKernel.Lib.alloc blockSize n (xs ++ ys) with
      | some p =>
          obtain ⟨a, bs'⟩ := p
          exact h.request_served 0 ha
      | none => exact h.request_exhausted 0 (by omega) ha
  | succ f ih =>
      cases ha : MicroKernel.Lib.alloc blockSize n (xs ++ ys) with
      | some p =>
          obtain ⟨a, bs'⟩ := p
          exact h.request_served (f + 1) ha
      | none =>
          by_cases hk : k + 1 < L.totalMemory / frameSize
          · have hsafe : ∀ i, k < i → i < L.totalMemory / frameSize →
                (n + blockSize ≤ frameSize → i = k + 1) → (i + 1) * frameSize ≤ kernelBase := by
              rcases hs with ⟨p, hp⟩ | hs
              · rw [ha] at hp
                cases hp
              · exact hs
            obtain ⟨s1, h1, h2, h3⟩ := h.append hk (hsafe (k + 1) (by omega) hk (fun _ => rfl))
            rw [kMallocRec, findFit_list n h.seg h.placed, ha]
            simp only [Option.map_none, Option.getD_none, Option.bind_some, ne_eq,
              not_true_eq_false, if_false, if_neg h2, h1]
            refine ih h3 (by omega) ?_
            -- either the new frame is large enough or the rest of the frames is taken as well
            by_cases hn : n + blockSize ≤ frameSize
            · left
              refine Option.ne_none_iff_exists'.mp fun h0 => ?_
              refine (alloc_eq_none_iff blockSize n _).mp h0
                { addr := (k + 1) * frameSize, size := frameSize - blockSize, free := true }
                (by simp) ⟨rfl, ?_⟩
              show n ≤ frameSize - blockSize
              omega
            · right
              intro i hi hlt hni
              exact hsafe i (by omega) hlt (fun hc => absurd hc hn)
          · exact h.request_exhausted (f + 1) (by omega) ha

theorem FallbackInv.kMalloc (h : FallbackInv L r xs ys k) {n : Nat}
    (hs : FallbackSafe L r.heap n) :
    ∃ s' ptr xs' ys' k', kMalloc L r.heap n = some (s', ptr) ∧
      FallbackInv L ⟨s', grant r.live ptr n⟩ xs' ys' k' ∧ Granted r.live (xs' ++ ys') n ptr := by
  have htotal : L.totalMemory / frameSize ≤ k + (4294967295 + 1) := by
    have := L.totalMemory_lt
    simp only [frameSize]
    omega
  refine h.request 4294967295 htotal ?_
  rcases hs with hs | hs
  · obtain ⟨a, bs', ha⟩ := (fromFreeList_iff h.seg h.placed).mp hs
    exact Or.inl ⟨_, ha⟩
  · right
    intro i hki hlt hn
    refine hs i (by omega) hlt ?_ fun hsmall j h1 hji => ?_
    · rw [h.frames i hlt, decide_eq_false (Nat.not_le.mpr hki)]
    · have := hn hsmall
      rw [h.frames j (by omega), decide_eq_true (by omega)]

/-! ## Releases -/

/-- Inside the heap and inside the frames neighbours meet, and across the seam nothing merges:
the first frame keeps its block. -/
theorem chain_of_tiled {xs' ys' : List Block} {lo mid hi top : Nat}
    (hx : Tiled blockSize lo mid xs) (hy : Tiled blockSize hi top ys)
    (hy' : Tiled blockSize hi top ys') :
    (xs ++ ys).IsChain fun b c =>
      c.addr ∈ (xs' ++ ys').map Block.addr ∨ b.stop blockSize = c.addr := by
  have hinside : ∀ {lo hi : Nat} {bs : List Block}, Tiled blockSize lo hi bs →
      bs.IsChain fun b c => c.addr ∈ (xs' ++ ys').map Block.addr ∨ b.stop blockSize = c.addr := by
    intro lo hi bs ht
    induction bs generalizing lo with
    | nil => exact List.isChain_nil
    | cons b bs ih =>
        refine (ih ht.2).cons fun c hc => Or.inr ?_
        cases bs with
        | nil => cases hc
        | cons d ds =>
            simp only [List.head?_cons, Option.mem_def, Option.some.injEq] at hc
            subst hc
            exact ht.2.1.symm
  refine List.isChain_append.mpr ⟨hinside hx, hinside hy, fun b _ c hc => Or.inl ?_⟩
  cases ys with
  | nil => cases hc
  | cons d ds =>
      simp only [List.head?_cons, Option.mem_def, Option.some.injEq] at hc
      subst hc
      -- the frames are not empty, so they still begin with a block
      cases ys' with
      | nil =>
          have h1 : hi = top := hy'
          have h2 := (hy.mem_bounds (b := d) (by simp)).2
          have h3 := hy.1
          simp only [Block.stop, blockSize] at h2
          omega
      | cons e es =>
          have : d.addr = e.addr := by rw [hy.1, hy'.1]
          simp [this]

/-- Which part of the list a block is in. -/
theorem append_eq_cons_append {pre post : List Block} {b : Block}
    (h : xs ++ ys = pre ++ b :: post) :
    (∃ post', xs = pre ++ b :: post' ∧ post = post' ++ ys) ∨
      ∃ pre', pre = xs ++ pre' ∧ ys = pre' ++ b :: post := by
  rcases List.append_eq_append_iff.mp h with ⟨pre', h1, h2⟩ | ⟨mid, h1, h2⟩
  · exact Or.inr ⟨pre', h1, h2⟩
  · cases mid with
    | nil => exact Or.inr ⟨[], by simpa using h1.symm, by simpa using h2.symm⟩
    | cons c post' =>
        simp only [List.cons_append, List.cons.injEq] at h2
        exact Or.inl ⟨post', by rw [h1, h2.1], h2.2⟩

/-- A release away from the seam happens inside the heap or inside the frames. -/
theorem release_parts {pre post : List Block} {b : Block} {lo mid hi top : Nat}
    (hx : Tiled blockSize lo mid xs) (hy : Tiled blockSize hi top ys)
    (hbs : xs ++ ys = pre ++ b :: post) (hpre : ∀ x ∈ pre, x.addr ≠ b.addr) (hf : b.free = false)
    (hr : b.stop blockSize = mid → ∀ c ∈ post.head?, c.free = false)
    (hl : b.addr = hi → ∀ c ∈ pre.getLast?, c.free = false) :
    ∃ xs' ys', release blockSize b.addr (xs ++ ys) = xs' ++ ys' ∧
      Tiled blockSize lo mid xs' ∧ Tiled blockSize hi top ys' := by
  have hpos : 0 < blockSize := by decide
  rcases append_eq_cons_append hbs with ⟨post', rfl, rfl⟩ | ⟨pre', rfl, rfl⟩
  · refine ⟨release blockSize b.addr (pre ++ b :: post'), ys, ?_, hx.release hpos, hy⟩
    refine release_append_left ys hpre rfl hf fun hnil => ?_
    subst hnil
    obtain ⟨_, -, h1⟩ := tiled_append.mp hx
    exact hr h1.2
  · refine ⟨xs, release blockSize b.addr (pre' ++ b :: post), ?_, hx, hy.release hpos⟩
    refine release_append_right (fun x hx => hpre x (by simp [hx]))
      (fun x hx => hpre x (by simp [hx])) rfl hf fun hnil => ?_
    subst hnil
    simpa using hl hy.1

/-- A release away from the seam. The list afterwards is again the heap and the frames. -/
theorem FallbackInv.free (h : FallbackInv L r xs ys k) {ptr : Nat}
    (hl : ptr ∈ r.live.map Prod.fst) (hs : SeamSafe r.heap ptr) :
    ∃ s' xs' ys', kFree r.heap ptr = some s' ∧
      FallbackInv L ⟨s', drop r.live ptr⟩ xs' ys' k := by
  have hp := h.placed
  have hwalk : walk r.heap.mem steps r.heap.freeList = some (xs ++ ys) :=
    walk_eq h.seg hp.pos hp.length_lt
  obtain ⟨pre, b, post, hbs, hf, rfl⟩ := h.owned.split hl
  have hseam := hs pre b post (by rw [hwalk, hbs]) rfl
  obtain ⟨xs', ys', hrel, hx', hy'⟩ := release_parts h.heapTiled h.frameTiled hbs
    (Placed.addr_ne (hbs ▸ hp)) hf hseam.1 hseam.2
  have hsize : ∀ x ∈ release blockSize b.addr (pre ++ b :: post), x.size < 2 ^ 32 := by
    rw [← hbs, hrel]
    intro x hx
    have hbound : x.stop blockSize ≤ heapEnd ∨ x.stop blockSize ≤ (k + 1) * frameSize := by
      rcases List.mem_append.mp hx with hx | hx
      · exact Or.inl (hx'.mem_bounds hx).2
      · exact Or.inr (hy'.mem_bounds hx).2
    have hbelow := h.below
    simp only [Block.stop, heapEnd, kernelBase] at hbound hbelow
    omega
  obtain ⟨m', hk, hseg, hw⟩ := kFree_spec (hbs ▸ h.seg) (hbs ▸ hp) hf hsize
  refine ⟨_, xs', ys', hk, h.bitmap, ?_, hx', hy', h.below, ?_, ?_⟩
  · rw [← hrel, hbs]
    exact hseg
  · refine h.frames_congr fun i hi => hw.offHeaders
      (show OffHeaders (pre ++ b :: post) _ from fun c hc => ?_)
    have := h.bitmap_outside hi (hbs ▸ hc)
    simp only [Block.stop] at this
    omega
  · rw [← hrel, hbs]
    exact (hbs ▸ h.owned).release (hbs ▸ hp) hf

/-- A release away from the seam merges only what meets. -/
theorem FallbackInv.mergesAdjacent (h : FallbackInv L r xs ys k) {ptr : Nat} (ho : r.Owns ptr)
    (hs : SeamSafe r.heap ptr) : MergesAdjacent r.heap ptr := by
  intro s' bs bs' hk hw hw'
  have hp := h.placed
  rw [walk_eq h.seg hp.pos hp.length_lt, Option.some.injEq] at hw
  subst hw
  rcases ho with rfl | hl
  · -- `k_free(NULL)` does nothing
    have hs' : r.heap = s' := by simpa [kFree] using hk
    rw [← hs', walk_eq h.seg hp.pos hp.length_lt, Option.some.injEq] at hw'
    subst hw'
    exact chain_of_tiled h.heapTiled h.frameTiled h.frameTiled
  · obtain ⟨s1, xs', ys', hk1, h1⟩ := h.free hl hs
    rw [hk, Option.some.injEq] at hk1
    subst hk1
    have hp1 := h1.placed
    rw [walk_eq h1.seg hp1.pos hp1.length_lt, Option.some.injEq] at hw'
    subst hw'
    exact chain_of_tiled h.heapTiled h.frameTiled h1.frameTiled

/-! ## Calls -/

/-- The copy of `k_realloc` goes into the payload of the block just given out. -/
theorem FallbackInv.copied {s : State} {ptr n : Nat} {q : State × Nat} {live : List (Nat × Nat)}
    {g : Block} (h : FallbackInv L ⟨q.1, live⟩ xs ys k) (hg : g ∈ xs ++ ys)
    (hq : q.2 = g.addr + blockSize) (hn : n ≤ g.size) :
    FallbackInv L ⟨reallocCopied s ptr n q, live⟩ xs ys k := by
  have hp := h.placed
  refine ⟨h.bitmap, seg_reallocCopied h.seg hp hg hq hn, h.heapTiled, h.frameTiled, h.below, ?_,
    h.owned⟩
  refine h.frames_congr fun i hi => reallocCopied_outside (hp.stop_lt g hg) hq hn ?_
  have := h.bitmap_outside hi hg
  omega

/-- Every `k_free` that a call makes starts from a state in order, with a pointer that is live
there. -/
theorem FallbackInv.frees (h : FallbackInv L r xs ys k) {c : Call} (hc : r.Allows c)
    (hs : SafeCall L r c) {q : State × Nat} (hq : q ∈ freesOf L r c) :
    ∃ live xs' ys' k', FallbackInv L ⟨q.1, live⟩ xs' ys' k' ∧ Run.Owns ⟨q.1, live⟩ q.2 := by
  cases c with
  | malloc n => cases hq
  | free ptr =>
      rw [List.mem_singleton.mp hq]
      exact ⟨r.live, xs, ys, k, h, hc⟩
  | realloc ptr n =>
      simp only [freesOf] at hq
      split at hq
      · cases hq
      next hptr =>
      split at hq
      · rw [List.mem_singleton.mp hq]
        exact ⟨r.live, xs, ys, k, h, hc⟩
      next hn0 =>
      split at hq
      · cases hq
      next hn =>
      obtain ⟨s', p, xs', ys', k', hm, h', hg⟩ :=
        h.kMalloc (hs.1 (Or.inr ⟨hn0, Nat.not_le.mp hn⟩))
      simp only [hm] at hq
      split at hq
      · cases hq
      next hp0 =>
      obtain ⟨⟨g, hg, hpg, hng⟩, -⟩ := hg.resolve_left hp0
      rw [List.mem_singleton.mp hq]
      rw [grant, if_neg hp0] at h'
      refine ⟨(p, n) :: r.live, xs', ys', k', FallbackInv.copied (q := (s', p)) h' hg hpg hng, ?_⟩
      rcases hc with rfl | hl
      · exact Or.inl rfl
      · exact Or.inr (List.mem_cons_of_mem _ hl)

/-- **Every safe call keeps the invariant.** It returns, too. -/
theorem FallbackInv.call (h : FallbackInv L r xs ys k) {c : Call} (hc : r.Allows c)
    (hs : SafeCall L r c) :
    ∃ r' xs' ys' k', r.call L c = some r' ∧ FallbackInv L r' xs' ys' k' := by
  have hmalloc : ∀ n, FallbackSafe L r.heap n →
      ∃ r' xs' ys' k', r.call L (.malloc n) = some r' ∧ FallbackInv L r' xs' ys' k' := by
    intro n hn
    obtain ⟨s', p, xs', ys', k', hm, h', -⟩ := h.kMalloc hn
    exact ⟨_, xs', ys', k', by rw [Run.call, hm, Option.map_some], h'⟩
  have hfree : ∀ ptr, ptr ∈ r.live.map Prod.fst → SeamSafe r.heap ptr →
      ∃ r' xs' ys' k', r.call L (.free ptr) = some r' ∧ FallbackInv L r' xs' ys' k' := by
    intro ptr hl hseam
    obtain ⟨s', xs', ys', hk, h'⟩ := h.free hl hseam
    exact ⟨_, xs', ys', k, by rw [Run.call, hk, Option.map_some], h'⟩
  cases c with
  | malloc n => exact hmalloc n hs.1
  | free ptr =>
      rcases hc with rfl | hl
      · refine ⟨r, xs, ys, k, ?_, h⟩
        rw [Run.call, kFree, if_pos rfl, Option.map_some, h.owned.drop_zero]
      · exact hfree ptr hl (hs.2 (r.heap, ptr) (by simp [freesOf]))
  | realloc ptr n =>
      rcases hc with rfl | hl
      · rw [Run.call_realloc_null]
        exact hmalloc n (hs.1 (Or.inl rfl))
      · have hptr := h.owned.ne_zero hl
        by_cases hn0 : n = 0
        · subst hn0
          rw [Run.call_realloc_zero hptr]
          exact hfree ptr hl (hs.2 (r.heap, ptr) (by simp [freesOf, hptr]))
        · by_cases hn : n ≤ sizeAt r.heap.mem (usub ptr blockSize)
          · refine ⟨_, xs, ys, k, Run.call_realloc_keep hptr hn0 hn, h.bitmap, h.seg, h.heapTiled,
              h.frameTiled, h.below, h.frames, ?_⟩
            obtain ⟨pre, b, post, hbs, hf, rfl⟩ := h.owned.split hl
            rw [sizeAt_live (hbs ▸ h.seg) (hbs ▸ h.placed)] at hn
            exact h.owned.resize (by simp [hbs]) hf hn
          · -- the block grows: allocate, copy, free the old one
            have hlt := Nat.not_le.mp hn
            obtain ⟨s1, p, xs1, ys1, k1, hm, h1, hg⟩ := h.kMalloc (hs.1 (Or.inr ⟨hn0, hlt⟩))
            by_cases hp0 : p = 0
            · subst hp0
              exact ⟨_, xs1, ys1, k1, Run.call_realloc_fail hptr hlt hm, h1⟩
            · obtain ⟨⟨g, hg, hpg, hng⟩, hpl⟩ := hg.resolve_left hp0
              rw [grant, if_neg hp0] at h1
              have h2 : FallbackInv L ⟨reallocCopied r.heap ptr n (s1, p), (p, n) :: r.live⟩
                  xs1 ys1 k1 := FallbackInv.copied (q := (s1, p)) h1 hg hpg hng
              obtain ⟨s2, xs2, ys2, hk, h3⟩ := h2.free (List.mem_cons_of_mem _ hl)
                (hs.2 (reallocCopied r.heap ptr n (s1, p), ptr)
                  (by simp [freesOf, hptr, hn0, hn, hm, hp0]))
              refine ⟨_, xs2, ys2, k1, Run.call_realloc_grow hptr hlt hm hp0 hk, ?_⟩
              have hne : p ≠ ptr := fun e => hpl (e ▸ hl)
              have hd : drop ((p, n) :: r.live) ptr = (p, n) :: drop r.live ptr := by
                simp [drop, hne]
              rw [hd] at h3
              exact h3

end

theorem fallbackInv_reachable {L : Layout} (hL : L.totalMemory ≠ 0) {mem : Bytes} {r : Run}
    (h : Relation.ReflTransGen (SafeStep L) (boot L mem) r) :
    ∃ xs ys k, FallbackInv L r xs ys k := by
  induction h with
  | refl => exact ⟨_, _, _, fallbackInv_boot L hL mem⟩
  | tail _ hstep ih =>
      obtain ⟨xs, ys, k, hi⟩ := ih
      obtain ⟨c, hc, hs, hk⟩ := hstep
      obtain ⟨r', xs', ys', k', hk', hi'⟩ := hi.call hc hs
      rw [hk, Option.some.injEq] at hk'
      subst hk'
      exact ⟨xs', ys', k', hi'⟩

/-- **Heap safety with the fallback.** In every run whose calls take no frame of the kernel
image and free nothing next to a free block across the seam, the heap is safe in every state,
the next such call merges only what meets in memory, and it returns. -/
theorem heapSafe_of_safeCalls (L : Layout) (hL : L.totalMemory ≠ 0) (mem : Bytes) :
    SafeUnder L mem (SafeStep L) (SafeCall L) ∧
      ∀ r, Relation.ReflTransGen (SafeStep L) (boot L mem) r →
        ∀ c, r.Allows c → SafeCall L r c → ∃ r', r.call L c = some r' := by
  constructor
  · intro r h
    obtain ⟨xs, ys, k, hi⟩ := fallbackInv_reachable hL h
    refine ⟨⟨xs ++ ys, hi.heapSafe⟩, fun c hc hs q hq => ?_⟩
    obtain ⟨live, xs', ys', k', hi', ho⟩ := hi.frees hc hs hq
    exact hi'.mergesAdjacent ho (hs.2 q hq)
  · intro r h c hc hs
    obtain ⟨xs, ys, k, hi⟩ := fallbackInv_reachable hL h
    obtain ⟨r', -, -, -, hk, -⟩ := hi.call hc hs
    exact ⟨r', hk⟩

/-- The whole heap is given out and the next request is served by a frame: both calls are safe. -/
theorem heapSafe_of_safeCalls_frame :
    ∃ r, Relation.ReflTransGen (SafeStep layout512) (boot layout512 fun _ => 0) r ∧
      r.live = [(0x0000100c, 1), (0x0020400c, 0x0edfbff4)] ∧ ∃ bs, HeapSafe layout512 r bs := by
  have h1 : Relation.ReflTransGen (SafeStep layout512) (boot layout512 fun _ => 0) _ :=
    .single ⟨.malloc 0x0edfbff4, trivial,
      ⟨Or.inl ⟨0x00204000, by decide, rfl⟩, by simp [freesOf]⟩, rfl⟩
  obtain ⟨r, hr, hl⟩ : ∃ r, Relation.ReflTransGen (SafeStep layout512) _ r ∧
      r.live = [(0x0000100c, 1), (0x0020400c, 0x0edfbff4)] := by
    refine ⟨_, h1.tail ⟨.malloc 1, trivial, ⟨Or.inr ?_, by simp [freesOf]⟩, rfl⟩, rfl⟩
    intro i hi _ _ hlow
    -- frame 1 is clear, so it is the one taken
    have : i = 1 := by
      by_contra hne
      exact absurd (hlow (by decide) 1 (by omega) (by omega)) (by decide)
    subst this
    decide
  exact ⟨r, hr, hl, ((heapSafe_of_safeCalls layout512 (by decide) _).1 r hr).1⟩

/-- The same two calls, then both pointers freed: the second release merges the heap with a
frame at the other end of the memory. -/
theorem not_heapSafe_allowed :
    ¬ SafeUnder layout512 (fun _ => 0) (AllowedStep layout512) (fun _ _ => True) := by
  intro h
  have h1 : Relation.ReflTransGen (AllowedStep layout512) (boot layout512 fun _ => 0) _ :=
    .single ⟨.malloc 0x0edfbff4, trivial, rfl⟩
  have h2 := h1.tail ⟨.malloc 1, trivial, rfl⟩
  have h3 := h2.tail ⟨.free 0x0000100c, Or.inr (by decide), rfl⟩
  have h4 := (h _ h3).2 (.free 0x0020400c) (Or.inr (by decide)) trivial _
    (List.mem_singleton.mpr rfl) _
    [⟨0x00204000, 0x0edfbff4, false⟩, ⟨0x00001000, 0xff4, true⟩] [⟨0x00204000, 0x0edfcff4, true⟩]
    rfl (by rfl) (by rfl)
  revert h4
  decide

end MicroKernel.Heap
