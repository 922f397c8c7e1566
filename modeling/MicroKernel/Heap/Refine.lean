import MicroKernel.Heap.Kmalloc
import MicroKernel.Lib.BlockList

set_option autoImplicit false

/-! # The block list in memory

`Seg m p bs q` says that following `next` in the memory `m` from the address `p` visits the
blocks `bs` and then arrives at `q`; the block list of the heap is `Seg m free_list bs 0`.

The theorems of this file say that the C functions compute the operations of
`Lib/BlockList.lean` on that list: `findFit` and `takeBlock` are `alloc`, `kFree` is
`release`. They ask only that the blocks do not overlap (`Placed`). Whether list neighbours
are also neighbours in memory plays no role here: `k_free` does not look.
-/

namespace MicroKernel.Heap

open MicroKernel.Lib Bytes

/-! ## List segments -/

/-- The list from `p` to `q` in memory holds the blocks `bs`. -/
def Seg (m : Bytes) : Nat → List Block → Nat → Prop
  | p, [], q => p = q
  | p, b :: bs, q =>
      p = b.addr ∧ sizeAt m p = b.size ∧ (freeAt m p ≠ 0 ↔ b.free = true) ∧
        Seg m (nextAt m p) bs q

theorem seg_append {m : Bytes} {p q : Nat} {xs ys : List Block} :
    Seg m p (xs ++ ys) q ↔ ∃ r, Seg m p xs r ∧ Seg m r ys q := by
  induction xs generalizing p with
  | nil => simp [Seg]
  | cons b xs ih =>
      simp only [List.cons_append, Seg, ih]
      constructor
      · rintro ⟨h1, h2, h3, r, h4, h5⟩
        exact ⟨r, ⟨h1, h2, h3, h4⟩, h5⟩
      · rintro ⟨r, ⟨h1, h2, h3, h4⟩, h5⟩
        exact ⟨h1, h2, h3, r, h4, h5⟩

/-- `x` is not a byte of a header of `bs`. -/
def OffHeaders (bs : List Block) (x : Nat) : Prop :=
  ∀ b ∈ bs, x < b.addr ∨ b.addr + blockSize ≤ x

/-- A segment depends on the headers of its blocks only. -/
theorem Seg.congr {m m' : Bytes} {p q : Nat} {bs : List Block} (hs : Seg m p bs q)
    (hm : ∀ b ∈ bs, ∀ i, i < blockSize → m' (b.addr + i) = m (b.addr + i)) : Seg m' p bs q := by
  induction bs generalizing p with
  | nil => exact hs
  | cons b bs ih =>
      obtain ⟨rfl, h2, h3, h4⟩ := hs
      have hb := hm b (by simp)
      have hw : ∀ k, k + 4 ≤ blockSize →
          load32 m' (b.addr + k) = load32 m (b.addr + k) := fun k hk =>
        load32_congr fun i hi => by
          simpa [Nat.add_assoc] using hb (k + i) (by omega)
      have e0 : sizeAt m' b.addr = sizeAt m b.addr := hw 0 (by decide)
      have e4 : freeAt m' b.addr = freeAt m b.addr := hw 4 (by decide)
      have e8 : nextAt m' b.addr = nextAt m b.addr := hw 8 (by decide)
      refine ⟨rfl, by rw [e0]; exact h2, by rw [e4]; exact h3, ?_⟩
      rw [e8]
      exact ih h4 fun c hc => hm c (by simp [hc])

/-- The address a list starts at. -/
theorem Seg.head {m : Bytes} {p q : Nat} {bs : List Block} (hs : Seg m p bs q) :
    p = (bs.head?.map Block.addr).getD q := by
  cases bs with
  | nil => exact hs
  | cons b bs => exact hs.1

/-! ## Placement -/

/-- The blocks are where blocks can be: not at `NULL`, inside the address space, and without
a common byte. -/
structure Placed (bs : List Block) : Prop where
  pos : ∀ b ∈ bs, 0 < b.addr
  stop_lt : ∀ b ∈ bs, b.stop blockSize < 2 ^ 32
  apart : bs.Pairwise (Block.Apart blockSize)

theorem headers_apart {b c : Block} (h : b.Apart blockSize c) :
    b.addr + blockSize ≤ c.addr ∨ c.addr + blockSize ≤ b.addr := by
  simp only [Block.Apart, Block.stop] at h
  omega

theorem Placed.append_apart {xs ys : List Block} (hp : Placed (xs ++ ys)) :
    ∀ x ∈ xs, ∀ y ∈ ys, x.Apart blockSize y :=
  (List.pairwise_append.mp hp.apart).2.2

theorem Placed.addr_ne {pre post : List Block} {b : Block} (hp : Placed (pre ++ b :: post)) :
    ∀ x ∈ pre, x.addr ≠ b.addr := by
  intro x hx
  have := headers_apart (hp.append_apart x hx b (by simp))
  simp only [blockSize] at this
  omega

/-- There are fewer blocks than addresses, so a walk along the list ends. -/
theorem Placed.length_lt {bs : List Block} (hp : Placed bs) : bs.length < steps := by
  have hnd : (bs.map Block.addr).Nodup := by
    refine List.pairwise_map.mpr (hp.apart.imp ?_)
    intro b c hbc
    have := headers_apart hbc
    simp only [blockSize] at this
    omega
  have hsub : (bs.map Block.addr).toFinset ⊆ Finset.Ico 1 (2 ^ 32) := by
    intro a ha
    simp only [List.mem_toFinset, List.mem_map] at ha
    obtain ⟨b, hb, rfl⟩ := ha
    have h1 := hp.pos b hb
    have h2 := hp.stop_lt b hb
    simp only [Block.stop, blockSize] at h2
    rw [Finset.mem_Ico]
    omega
  have hc := Finset.card_le_card hsub
  rw [List.toFinset_card_of_nodup hnd, List.length_map, Nat.card_Ico] at hc
  unfold steps
  omega

/-! ## The search of `k_malloc` -/

theorem findFit_eq {m : Bytes} {n p : Nat} {bs : List Block} (hs : Seg m p bs 0)
    (hpos : ∀ b ∈ bs, 0 < b.addr) {k : Nat} (hk : bs.length < k) :
    findFit m n k p = some (((alloc blockSize n bs).map Prod.fst).getD 0) := by
  induction bs generalizing p k with
  | nil =>
      obtain ⟨k, rfl⟩ : ∃ k', k = k' + 1 := ⟨k - 1, by simp at hk; omega⟩
      simp only [findFit, show p = 0 from hs, if_true]
      rfl
  | cons b bs ih =>
      obtain ⟨k, rfl⟩ : ∃ k', k = k' + 1 := ⟨k - 1, by simp at hk; omega⟩
      obtain ⟨rfl, h2, h3, h4⟩ := hs
      have hb := hpos b (by simp)
      have hcond : (freeAt m b.addr ≠ 0 ∧ n ≤ sizeAt m b.addr) ↔ b.Fits n := by
        rw [h2, h3]
        rfl
      rw [findFit, if_neg (by omega)]
      by_cases hf : b.Fits n
      · rw [if_pos (hcond.mpr hf), alloc, if_pos hf]
        rfl
      · rw [if_neg (fun hc => hf (hcond.mp hc)),
          ih h4 (fun c hc => hpos c (by simp [hc])) (by simp at hk; omega), alloc, if_neg hf]
        cases alloc blockSize n bs <;> rfl

/-! ## Giving out a block -/

/-- `takeBlock` on a block that fits, with no wrap-around left. -/
theorem takeBlock_eq {m : Bytes} {n : Nat} {b : Block} (hpos : 0 < b.addr)
    (hb : b.stop blockSize ≤ 2 ^ 32) (hsz : sizeAt m b.addr = b.size) (hn : n ≤ b.size) :
    takeBlock m n b.addr
      = if n + blockSize < b.size then
          store32 (store32 (store32 (store32 (store32 (store32 m (b.addr + 4) 0)
            (b.addr + blockSize + n) (b.size - n - blockSize))
            (b.addr + blockSize + n + 4) 1)
            (b.addr + blockSize + n + 8) (nextAt m b.addr))
            b.addr n)
            (b.addr + 8) (b.addr + blockSize + n)
        else store32 m (b.addr + 4) 0 := by
  have hB : blockSize = 12 := rfl
  simp only [Block.stop] at hb
  have e : sizeAt (store32 m (b.addr + 4) 0) b.addr = b.size := by
    rw [← hsz]
    exact load32_store32_ne m 0 (by omega)
  have hcond : u32 (n + blockSize) < sizeAt (store32 m (b.addr + 4) 0) b.addr
      ↔ n + blockSize < b.size := by
    rw [e, u32_eq_self (by omega)]
  unfold takeBlock
  by_cases hlt : n + blockSize < b.size
  · rw [if_pos (hcond.mpr hlt), if_pos hlt, e, u32_eq_self (by omega), usub_of_le hn (by omega),
      usub_of_le (by omega) (by omega)]
    dsimp only
    congr 3
    unfold nextAt
    rw [load32_store32_ne _ _ (by omega), load32_store32_ne _ _ (by omega),
      load32_store32_ne _ _ (by omega)]
  · rw [if_neg (fun h => hlt (hcond.mp h)), if_neg hlt]

/-- `takeBlock` stays inside the block it gives out. -/
theorem takeBlock_outside {m : Bytes} {n : Nat} {b : Block} (hpos : 0 < b.addr)
    (hb : b.stop blockSize ≤ 2 ^ 32) (hsz : sizeAt m b.addr = b.size) (hn : n ≤ b.size) {x : Nat}
    (hx : x < b.addr ∨ b.stop blockSize ≤ x) : takeBlock m n b.addr x = m x := by
  have hB : blockSize = 12 := rfl
  rw [takeBlock_eq hpos hb hsz hn]
  simp only [Block.stop] at hb hx
  by_cases hlt : n + blockSize < b.size
  · rw [if_pos hlt, store32_outside _ _ (by omega), store32_outside _ _ (by omega),
      store32_outside _ _ (by omega), store32_outside _ _ (by omega),
      store32_outside _ _ (by omega), store32_outside _ _ (by omega)]
  · rw [if_neg hlt, store32_outside _ _ (by omega)]

/-- The headers that `takeBlock` leaves in the place of the block. -/
theorem seg_takeBlock {m : Bytes} {n q : Nat} {b : Block} (hpos : 0 < b.addr)
    (hb : b.stop blockSize ≤ 2 ^ 32) (hs : Seg m b.addr [b] q) (hn : n ≤ b.size) :
    Seg (takeBlock m n b.addr) b.addr (b.split blockSize n) q := by
  have hB : blockSize = 12 := rfl
  obtain ⟨-, hsz, -, hq⟩ := hs
  replace hq : nextAt m b.addr = q := hq
  have hq' : q < 2 ^ 32 := hq ▸ load32_lt m _
  rw [takeBlock_eq hpos hb hsz hn, hq]
  simp only [Block.stop] at hb
  unfold Block.split
  by_cases hlt : n + blockSize < b.size
  · rw [if_pos hlt, if_pos hlt]
    have hnext : nextAt (store32 (store32 (store32 (store32 (store32 (store32 m (b.addr + 4) 0)
        (b.addr + blockSize + n) (b.size - n - blockSize)) (b.addr + blockSize + n + 4) 1)
        (b.addr + blockSize + n + 8) q) b.addr n) (b.addr + 8) (b.addr + blockSize + n)) b.addr
        = b.addr + blockSize + n := by
      rw [nextAt, load32_store32_same]
      exact Nat.mod_eq_of_lt (by omega)
    -- the header of the block itself, then that of the rest
    refine ⟨rfl, ?_, ?_, ?_⟩
    · rw [sizeAt, load32_store32_ne _ _ (by omega), load32_store32_same]
      exact Nat.mod_eq_of_lt (by omega)
    · rw [freeAt, load32_store32_ne _ _ (by omega), load32_store32_ne _ _ (by omega),
        load32_store32_ne _ _ (by omega), load32_store32_ne _ _ (by omega),
        load32_store32_ne _ _ (by omega), load32_store32_same]
      simp
    · rw [hnext]
      refine ⟨rfl, ?_, ?_, ?_⟩
      · rw [sizeAt, load32_store32_ne _ _ (by omega), load32_store32_ne _ _ (by omega),
          load32_store32_ne _ _ (by omega), load32_store32_ne _ _ (by omega), load32_store32_same]
        exact Nat.mod_eq_of_lt (by omega)
      · rw [freeAt, load32_store32_ne _ _ (by omega), load32_store32_ne _ _ (by omega),
          load32_store32_ne _ _ (by omega), load32_store32_same]
        simp
      · show nextAt _ _ = q
        rw [nextAt, load32_store32_ne _ _ (by omega), load32_store32_ne _ _ (by omega),
          load32_store32_same]
        exact Nat.mod_eq_of_lt hq'
  · rw [if_neg hlt, if_neg hlt]
    refine ⟨rfl, ?_, ?_, ?_⟩
    · rw [← hsz]
      exact load32_store32_ne m 0 (by omega)
    · rw [freeAt, load32_store32_same]
      simp
    · show nextAt _ b.addr = q
      rw [← hq]
      exact load32_store32_ne m 0 (by omega)

/-- **`takeBlock` on the block found is `alloc`.** -/
theorem takeBlock_refines {m : Bytes} {n a p : Nat} {bs bs' : List Block} (hs : Seg m p bs 0)
    (hp : Placed bs) (ha : alloc blockSize n bs = some (a, bs')) :
    Seg (takeBlock m n a) p bs' 0 := by
  obtain ⟨pre, b, post, rfl, -, hf, rfl, rfl⟩ := alloc_eq_some ha
  obtain ⟨r, hpre, hrest⟩ := seg_append.mp hs
  have hsz : sizeAt m b.addr = b.size := hrest.1 ▸ hrest.2.1
  have hstop := Nat.le_of_lt (hp.stop_lt b (by simp))
  have hpos := hp.pos b (by simp)
  have hout : ∀ c : Block, b.Apart blockSize c → ∀ i, i < blockSize →
      takeBlock m n b.addr (c.addr + i) = m (c.addr + i) := by
    intro c hc i hi
    refine takeBlock_outside hpos hstop hsz hf.2 ?_
    simp only [Block.Apart, Block.stop] at hc
    simp only [Block.stop]
    omega
  have hsplit := List.pairwise_append.mp hp.apart
  refine seg_append.mpr ⟨r, hpre.congr fun c hc => hout c (Or.symm (hsplit.2.2 c hc b (by simp))), ?_⟩
  have hr : r = b.addr := hrest.1
  subst hr
  have hpost : Seg m (nextAt m b.addr) post 0 := hrest.2.2.2
  refine seg_append.mpr ⟨nextAt m b.addr,
    seg_takeBlock hpos hstop ⟨rfl, hsz, hrest.2.2.1, rfl⟩ hf.2, ?_⟩
  exact hpost.congr fun c hc => hout c ((List.pairwise_cons.mp hsplit.2.1).1 c hc)

/-- No used block loses a byte to an allocation. -/
theorem takeBlock_used {m : Bytes} {n a p : Nat} {bs bs' : List Block} (hs : Seg m p bs 0)
    (hp : Placed bs) (ha : alloc blockSize n bs = some (a, bs')) {c : Block} (hc : c ∈ bs)
    (hu : c.free = false) {x : Nat} (hlo : c.addr ≤ x) (hhi : x < c.stop blockSize) :
    takeBlock m n a x = m x := by
  obtain ⟨pre, b, post, rfl, -, hf, rfl, -⟩ := alloc_eq_some ha
  obtain ⟨r, -, hb⟩ := seg_append.mp hs
  have hne : c ≠ b := by
    rintro rfl
    exact absurd hf.1 (by simp [hu])
  have hsymm : Std.Symm (Block.Apart blockSize) := ⟨fun x y hxy => Or.symm hxy⟩
  have hap := hp.apart.forall hc (by simp) hne
  refine takeBlock_outside (hp.pos b (by simp)) (Nat.le_of_lt (hp.stop_lt b (by simp)))
    (hb.1 ▸ hb.2.1) hf.2 ?_
  simp only [Block.Apart] at hap
  omega

/-! ## Freeing a block -/

/-- `mergeWithNext` writes the words `size` and `next` of its block only. -/
theorem mergeWithNext_frame (m : Bytes) {b x : Nat}
    (hx : x < b ∨ b + blockSize ≤ x ∨ (b + 4 ≤ x ∧ x < b + 8)) : mergeWithNext m b x = m x := by
  have hB : blockSize = 12 := rfl
  unfold mergeWithNext
  rw [store32_outside _ _ (by omega), store32_outside _ _ (by omega)]

theorem mergeWithNext_outside (m : Bytes) {b x : Nat} (hx : x < b ∨ b + blockSize ≤ x) :
    mergeWithNext m b x = m x := mergeWithNext_frame m (by omega)

/-- The header of a block and its successor, merged. -/
theorem seg_mergeWithNext {m : Bytes} {p q : Nat} {b c : Block} {cs : List Block}
    (hs : Seg m p (b :: c :: cs) q)
    (hap : ∀ d ∈ c :: cs, b.addr + blockSize ≤ d.addr ∨ d.addr + blockSize ≤ b.addr)
    (hsz : b.size + c.size + blockSize < 2 ^ 32) :
    Seg (mergeWithNext m b.addr) p ({ b with size := b.size + c.size + blockSize } :: cs) q := by
  have hB : blockSize = 12 := rfl
  obtain ⟨rfl, h2, h3, hc, h5, -, h7⟩ := hs
  have hbc := hap c (by simp)
  have hnc : load32 m (c.addr + 8) < 2 ^ 32 := load32_lt m _
  have hnext : nextAt (mergeWithNext m b.addr) b.addr = nextAt m c.addr := by
    unfold mergeWithNext
    rw [hc]
    unfold nextAt
    rw [load32_store32_same, load32_store32_ne _ _ (by omega), Nat.mod_eq_of_lt hnc]
  refine ⟨rfl, ?_, ?_, ?_⟩
  · unfold mergeWithNext sizeAt
    rw [load32_store32_ne _ _ (by omega), load32_store32_same, hc]
    rw [hc] at h5
    rw [sizeAt] at h2 h5
    rw [h2, h5, Nat.mod_eq_of_lt (by omega)]
    show b.size + (c.size + blockSize) = b.size + c.size + blockSize
    omega
  · rw [← h3]
    unfold mergeWithNext freeAt
    rw [load32_store32_ne _ _ (by omega), load32_store32_ne _ _ (by omega)]
  · rw [hnext, ← hc]
    refine h7.congr fun d hd i hi => mergeWithNext_outside m ?_
    have := hap d (by simp [hd])
    omega

theorem Placed.right {xs ys : List Block} (hp : Placed (xs ++ ys)) : Placed ys :=
  ⟨fun c hc => hp.pos c (by simp [hc]), fun c hc => hp.stop_lt c (by simp [hc]),
    (List.pairwise_append.mp hp.apart).2.1⟩

/-- Nothing but the block before `a` points to `a`. -/
theorem findPrev_eq_zero {m : Bytes} {p a : Nat} {bs : List Block} (hs : Seg m p bs 0)
    (hpos : ∀ b ∈ bs, 0 < b.addr) (ha : 0 < a) (hne : ∀ b ∈ bs.tail, b.addr ≠ a) {k : Nat}
    (hk : bs.length < k) : findPrev m a k p = some 0 := by
  induction bs generalizing p k with
  | nil =>
      obtain ⟨k, rfl⟩ : ∃ k', k = k' + 1 := ⟨k - 1, by simp at hk; omega⟩
      simp [findPrev, show p = 0 from hs]
  | cons b bs ih =>
      obtain ⟨k, rfl⟩ : ∃ k', k = k' + 1 := ⟨k - 1, by simp at hk; omega⟩
      obtain ⟨rfl, -, -, h4⟩ := hs
      have hb := hpos b (by simp)
      have hn : nextAt m b.addr ≠ a := by
        cases bs with
        | nil =>
            have : nextAt m b.addr = 0 := h4
            omega
        | cons c cs =>
            rw [h4.1]
            exact hne c (by simp)
      rw [findPrev, if_neg (by omega), if_neg (fun h => hn h.1)]
      exact ih h4 (fun c hc => hpos c (by simp [hc]))
        (fun c hc => hne c (List.mem_of_mem_tail hc)) (by simp at hk; omega)

/-- The second loop of `k_free` finds the list predecessor of the block when it is free. -/
theorem findPrev_concat {m : Bytes} {p : Nat} {pre rest : List Block} {l b : Block}
    (hs : Seg m p (pre ++ l :: b :: rest) 0) (hpos : ∀ c ∈ pre ++ l :: b :: rest, 0 < c.addr)
    (hpre : ∀ c ∈ pre, c.addr ≠ b.addr) (hl : l.addr ≠ b.addr)
    (hrest : ∀ c ∈ rest, c.addr ≠ b.addr) {k : Nat}
    (hk : (pre ++ l :: b :: rest).length < k) :
    findPrev m b.addr k p = some (if l.free then l.addr else 0) := by
  induction pre generalizing p k with
  | nil =>
      obtain ⟨k, rfl⟩ : ∃ k', k = k' + 1 := ⟨k - 1, by simp at hk; omega⟩
      obtain ⟨rfl, -, h3, h4⟩ := hs
      have hlp := hpos l (by simp)
      have hn : nextAt m l.addr = b.addr := h4.1
      rw [findPrev, if_neg (by omega)]
      by_cases hf : l.free
      · rw [if_pos ⟨hn, h3.mpr hf⟩, if_pos hf]
      · rw [if_neg (fun h => hf (h3.mp h.2)), if_neg hf]
        exact findPrev_eq_zero h4 (fun c hc => hpos c (List.mem_cons_of_mem l hc))
          (hpos b (by simp)) (by simpa using hrest) (by simp at hk ⊢; omega)
  | cons c cs ih =>
      obtain ⟨k, rfl⟩ : ∃ k', k = k' + 1 := ⟨k - 1, by simp at hk; omega⟩
      obtain ⟨rfl, -, -, h4⟩ := hs
      have hc := hpos c (by simp)
      have hn : nextAt m c.addr ≠ b.addr := by
        cases cs with
        | nil => rw [h4.1]; exact hl
        | cons d ds => rw [h4.1]; exact hpre d (by simp)
      rw [findPrev, if_neg (by omega), if_neg (fun h => hn h.1)]
      exact ih h4 (fun d hd => hpos d (List.mem_cons_of_mem c hd))
        (fun d hd => hpre d (by simp [hd])) (by simp at hk ⊢; omega)

/-- The first half of `k_free`: the block, now free, merged with a free successor. -/
def freeAndMergeNext (m : Bytes) (block : Nat) : Bytes :=
  let m := store32 m (block + 4) 1
  if nextAt m block ≠ 0 ∧ freeAt m (nextAt m block) ≠ 0 then mergeWithNext m block else m

theorem freeAndMergeNext_outside (m : Bytes) {b x : Nat} (hx : x < b ∨ b + blockSize ≤ x) :
    freeAndMergeNext m b x = m x := by
  have hB : blockSize = 12 := rfl
  unfold freeAndMergeNext
  split
  · rw [mergeWithNext_outside _ hx, store32_outside _ _ (by omega)]
  · rw [store32_outside _ _ (by omega)]

theorem freeAt_freeAndMergeNext (m : Bytes) (b : Nat) : freeAt (freeAndMergeNext m b) b = 1 := by
  have hflag : freeAt (store32 m (b + 4) 1) b = 1 := load32_store32_same m (b + 4) 1
  unfold freeAndMergeNext
  dsimp only
  split
  · refine Eq.trans (load32_congr fun i hi => mergeWithNext_frame _ ?_) hflag
    omega
  · exact hflag

theorem seg_freeAndMergeNext {m : Bytes} {p : Nat} {b : Block} {post : List Block}
    (hs : Seg m p (b :: post) 0) (hp : Placed (b :: post))
    (hsz : ∀ x ∈ absorb blockSize { b with free := true } post, x.size < 2 ^ 32) :
    Seg (freeAndMergeNext m b.addr) p (absorb blockSize { b with free := true } post) 0 := by
  have hB : blockSize = 12 := rfl
  obtain ⟨hap, -⟩ := List.pairwise_cons.mp hp.apart
  obtain ⟨rfl, h2, -, h4⟩ := hs
  -- first only the flag of `b` changes
  have hs1 : Seg (store32 m (b.addr + 4) 1) b.addr ({ b with free := true } :: post) 0 := by
    refine ⟨rfl, ?_, ?_, ?_⟩
    · rw [← h2]
      exact load32_store32_ne m 1 (by omega)
    · rw [freeAt, load32_store32_same]
      simp
    · have hn : nextAt (store32 m (b.addr + 4) 1) b.addr = nextAt m b.addr :=
        load32_store32_ne m 1 (by omega)
      rw [hn]
      refine h4.congr fun c hc i hi => store32_outside m 1 ?_
      have := headers_apart (hap c hc)
      omega
  unfold freeAndMergeNext
  dsimp only
  cases post with
  | nil =>
      have hn : nextAt (store32 m (b.addr + 4) 1) b.addr = 0 := hs1.2.2.2
      rw [if_neg (fun h => h.1 hn)]
      exact hs1
  | cons c cs =>
      have hc : nextAt (store32 m (b.addr + 4) 1) b.addr = c.addr := hs1.2.2.2.1
      have h6 := hs1.2.2.2.2.2.1
      rw [hc] at h6
      have hcp := hp.pos c (by simp)
      by_cases hf : c.free
      · rw [hc, if_pos ⟨by omega, h6.mpr hf⟩]
        simp only [absorb, if_pos hf] at hsz ⊢
        refine seg_mergeWithNext (b := { b with free := true }) hs1 ?_
          (hsz _ List.mem_cons_self)
        exact fun d hd => headers_apart (hap d hd)
      · rw [hc, if_neg (fun h => hf (h6.mp h.2))]
        simp only [absorb, if_neg hf]
        exact hs1

/-- The blocks before it stay as they are. -/
theorem seg_freeAndMergeNext_append {m : Bytes} {p : Nat} {pre post : List Block} {b : Block}
    (hs : Seg m p (pre ++ b :: post) 0) (hp : Placed (pre ++ b :: post))
    (hsz : ∀ x ∈ absorb blockSize { b with free := true } post, x.size < 2 ^ 32) :
    Seg (freeAndMergeNext m b.addr) p (pre ++ absorb blockSize { b with free := true } post) 0 := by
  obtain ⟨r, hspre, hsb⟩ := seg_append.mp hs
  refine seg_append.mpr ⟨r, hspre.congr fun c hc i hi => freeAndMergeNext_outside m ?_,
    seg_freeAndMergeNext hsb hp.right hsz⟩
  have := headers_apart (hp.append_apart c hc b (by simp))
  omega

/-- Merging a block with its successor behind other blocks. -/
theorem seg_mergeWithNext_append {m : Bytes} {p : Nat} {pre rest : List Block} {l c : Block}
    (hs : Seg m p (pre ++ l :: c :: rest) 0)
    (hpre : ∀ d ∈ pre, l.addr + blockSize ≤ d.addr ∨ d.addr + blockSize ≤ l.addr)
    (hap : ∀ d ∈ c :: rest, l.addr + blockSize ≤ d.addr ∨ d.addr + blockSize ≤ l.addr)
    (hsum : l.size + c.size + blockSize < 2 ^ 32) :
    Seg (mergeWithNext m l.addr) p
      (pre ++ { l with size := l.size + c.size + blockSize } :: rest) 0 := by
  obtain ⟨r, hspre, hsl⟩ := seg_append.mp hs
  refine seg_append.mpr ⟨r, hspre.congr fun d hd i hi => mergeWithNext_outside m ?_,
    seg_mergeWithNext hsl hap hsum⟩
  have := hpre d hd
  omega

/-- Merging puts a block at the address of the merged one. -/
theorem absorb_eq_cons (b : Block) (bs : List Block) :
    ∃ b' rest, absorb blockSize b bs = b' :: rest ∧ b'.addr = b.addr ∧ b'.free = b.free ∧
      rest <:+ bs := by
  cases bs with
  | nil => exact ⟨b, [], rfl, rfl, rfl, List.nil_suffix⟩
  | cons c cs =>
      by_cases hf : c.free
      · refine ⟨{ b with size := b.size + c.size + blockSize }, cs, ?_, rfl, rfl,
          List.suffix_cons c cs⟩
        simp only [absorb, if_pos hf]
      · exact ⟨b, c :: cs, by simp only [absorb, if_neg hf], rfl, rfl, List.suffix_refl _⟩

/-- `k_free` of a used block is the first half followed by the search for its predecessor. -/
theorem kFree_eq {s : State} {b : Nat} (hb : b + blockSize < 2 ^ 32)
    (hu : freeAt s.mem b = 0) :
    kFree s (b + blockSize)
      = (findPrev (freeAndMergeNext s.mem b) b steps s.freeList).map fun current =>
          { s with mem := if current ≠ 0 then mergeWithNext (freeAndMergeNext s.mem b) current
            else freeAndMergeNext s.mem b } := by
  have hB : blockSize = 12 := rfl
  unfold kFree
  rw [if_neg (by omega), usub_of_le (by omega) hb, Nat.add_sub_cancel, if_neg (fun h => h hu)]
  rfl

/-- When a block has absorbed the ones behind it, the headers that are left lie where they have
been. -/
theorem Placed.absorbed {pre post rest : List Block} {b b2 : Block}
    (hp : Placed (pre ++ b :: post)) (haddr : b2.addr = b.addr) (hsuf : rest <:+ post) :
    (∀ c ∈ pre ++ b2 :: rest, 0 < c.addr) ∧ (∀ c ∈ rest, c.addr ≠ b.addr) ∧
      (pre ++ b2 :: rest).length < steps := by
  refine ⟨fun c hc => ?_, fun c hc => ?_, ?_⟩
  · rcases List.mem_append.mp hc with hc | hc
    · exact hp.pos c (by simp [hc])
    · rcases List.mem_cons.mp hc with rfl | hc
      · rw [haddr]
        exact hp.pos b (by simp)
      · exact hp.pos c (by simp [hsuf.subset hc])
  · have hB : blockSize = 12 := rfl
    have hap := headers_apart ((List.pairwise_cons.mp hp.right.apart).1 c (hsuf.subset hc))
    omega
  · have hlen := hp.length_lt
    have hrest := hsuf.length_le
    simp only [List.length_append, List.length_cons] at hlen ⊢
    omega

/-- The block in front of it has its header apart from all of them. -/
theorem Placed.absorbed_apart {pre post rest : List Block} {l b b2 : Block}
    (hp : Placed (pre ++ l :: b :: post)) (haddr : b2.addr = b.addr) (hsuf : rest <:+ post) :
    ∀ d ∈ b2 :: rest, l.addr + blockSize ≤ d.addr ∨ d.addr + blockSize ≤ l.addr := by
  have hap := (List.pairwise_cons.mp hp.right.apart).1
  intro d hd
  rcases List.mem_cons.mp hd with rfl | hd
  · rw [haddr]
    exact headers_apart (hap b List.mem_cons_self)
  · exact headers_apart (hap d (List.mem_cons_of_mem b (hsuf.subset hd)))

/-- What `k_free` of `b` writes when `pre` is in front of it: the header of `b`, whose flag is set,
and the words `size` and `next` of a free predecessor. -/
structure FreeWrites (m m' : Bytes) (pre : List Block) (b : Block) : Prop where
  flag : freeAt m' b.addr = 1
  outside : ∀ x, (x < b.addr ∨ b.addr + blockSize ≤ x) →
    (∀ l ∈ pre.getLast?, l.free = true →
      x < l.addr ∨ l.addr + blockSize ≤ x ∨ (l.addr + 4 ≤ x ∧ x < l.addr + 8)) → m' x = m x

/-- The first half alone. -/
theorem freeWrites_freeAndMergeNext (m : Bytes) (pre : List Block) (b : Block) :
    FreeWrites m (freeAndMergeNext m b.addr) pre b :=
  ⟨freeAt_freeAndMergeNext m b.addr, fun _ hx _ => freeAndMergeNext_outside m hx⟩

/-- Both halves, when the predecessor `l` is free. -/
theorem freeWrites_mergeWithNext (m : Bytes) (pre : List Block) {l b : Block} (hl : l.free = true)
    (hap : l.addr + blockSize ≤ b.addr ∨ b.addr + blockSize ≤ l.addr) :
    FreeWrites m (mergeWithNext (freeAndMergeNext m b.addr) l.addr) (pre ++ [l]) b := by
  have hB : blockSize = 12 := rfl
  constructor
  · refine Eq.trans (load32_congr fun i hi => mergeWithNext_outside _ ?_)
      (freeAt_freeAndMergeNext m b.addr)
    omega
  · intro x hx hprev
    rw [mergeWithNext_frame _ (hprev l (by simp) hl), freeAndMergeNext_outside m hx]

/-- **`k_free` of a used block is `release`.** -/
theorem kFree_spec {s : State} {pre post : List Block} {b : Block}
    (hs : Seg s.mem s.freeList (pre ++ b :: post) 0) (hp : Placed (pre ++ b :: post))
    (hu : b.free = false)
    (hsz : ∀ x ∈ release blockSize b.addr (pre ++ b :: post), x.size < 2 ^ 32) :
    ∃ m', kFree s (b.addr + blockSize) = some { s with mem := m' } ∧
      Seg m' s.freeList (release blockSize b.addr (pre ++ b :: post)) 0 ∧
      FreeWrites s.mem m' pre b := by
  have hB : blockSize = 12 := rfl
  have hstop := hp.stop_lt b (by simp)
  simp only [Block.stop] at hstop
  have hnf : freeAt s.mem b.addr = 0 := by
    obtain ⟨r, -, rfl, -, hfree, -⟩ := seg_append.mp hs
    by_contra h
    simp [hfree.mp h] at hu
  rw [kFree_eq (by omega) hnf]
  rw [release_append hp.addr_ne rfl hu] at hsz ⊢
  obtain ⟨b2, rest, hab, hb2a, hb2f, hsuf⟩ := absorb_eq_cons { b with free := true } post
  replace hb2a : b2.addr = b.addr := hb2a
  have hapb : ∀ c ∈ pre, c.Apart blockSize b := fun c hc => hp.append_apart c hc b (by simp)
  obtain ⟨hpos2, hrest_ne, hlen2⟩ := hp.absorbed hb2a hsuf
  have hfirst := freeWrites_freeAndMergeNext s.mem pre b
  have hboth := fun bs l => freeWrites_mergeWithNext s.mem bs (l := l) (b := b)
  set m2 := freeAndMergeNext s.mem b.addr with hm2
  rw [hab] at hsz ⊢
  -- the list after the first half, as soon as the merged size fits a word
  have hs2 : (∀ x ∈ b2 :: rest, x.size < 2 ^ 32) → Seg m2 s.freeList (pre ++ b2 :: rest) 0 := by
    intro hsz1
    rw [← hab] at hsz1 ⊢
    exact seg_freeAndMergeNext_append hs hp hsz1
  rcases List.eq_nil_or_concat pre with rfl | ⟨pre, l, rfl⟩
  · -- no predecessor: the loop finds nothing
    have h2 := hs2 hsz
    have hf : findPrev m2 b.addr steps s.freeList = some 0 :=
      findPrev_eq_zero h2 hpos2 (hp.pos b (by simp)) (by simpa using hrest_ne) hlen2
    rw [hf]
    exact ⟨m2, rfl, h2, hfirst⟩
  · simp only [List.concat_eq_append, List.append_assoc, List.singleton_append] at *
    rw [mergePrev_concat] at hsz ⊢
    have hlb := headers_apart (hapb l (by simp))
    have hfp : Seg m2 s.freeList (pre ++ l :: b2 :: rest) 0 →
        findPrev m2 b.addr steps s.freeList = some (if l.free then l.addr else 0) := by
      intro h2
      rw [← hb2a]
      refine findPrev_concat h2 hpos2 ?_ (by omega) (by rw [hb2a]; exact hrest_ne) hlen2
      intro c hc
      have := headers_apart (hapb c (by simp [hc]))
      omega
    by_cases hlf : l.free
    · rw [if_pos hlf, absorb, if_pos hb2f] at hsz ⊢
      have hsum : l.size + b2.size + blockSize < 2 ^ 32 :=
        hsz { l with size := l.size + b2.size + blockSize } (by simp)
      have h2 := hs2 (by
        intro x hx
        rcases List.mem_cons.mp hx with rfl | hx
        · omega
        · exact hsz x (by simp [hx]))
      rw [hfp h2, if_pos hlf]
      have hlp := hp.pos l (by simp)
      refine ⟨mergeWithNext m2 l.addr, by simp [Nat.ne_of_gt hlp], ?_, hboth pre l hlf hlb⟩
      refine seg_mergeWithNext_append h2 (fun c hc => ?_) (hp.absorbed_apart hb2a hsuf) hsum
      exact (headers_apart (hp.append_apart c hc l (by simp))).symm
    · rw [if_neg hlf] at hsz ⊢
      have h2 := hs2 fun x hx => hsz x (List.mem_append_right pre (List.mem_cons_of_mem l hx))
      rw [hfp h2, if_neg hlf]
      exact ⟨m2, rfl, h2, hfirst⟩

/-- A release writes to headers only. -/
theorem FreeWrites.offHeaders {m m' : Bytes} {pre post : List Block} {b : Block}
    (h : FreeWrites m m' pre b) {x : Nat} (hx : OffHeaders (pre ++ b :: post) x) : m' x = m x := by
  refine h.outside x (hx b (by simp)) fun l hl _ => ?_
  have hmem : l ∈ pre := List.mem_of_getLast? hl
  rcases hx l (by simp [hmem]) with hlt | hle
  · exact Or.inl hlt
  · exact Or.inr (Or.inl hle)

/-- The flag at `a` survives a release of `b`, unless it is the flag of `b`. -/
theorem FreeWrites.freeAt_eq {m m' : Bytes} {pre : List Block} {b : Block}
    (h : FreeWrites m m' pre b) {a : Nat}
    (hb : a + blockSize ≤ b.addr ∨ b.addr + blockSize ≤ a)
    (hl : ∀ l ∈ pre.getLast?, l.free = true →
      a = l.addr ∨ a + blockSize ≤ l.addr ∨ l.addr + blockSize ≤ a) :
    freeAt m' a = freeAt m a := by
  have hB : blockSize = 12 := rfl
  refine load32_congr fun i hi => h.outside _ (by omega) fun l hmem hfree => ?_
  have hcase := hl l hmem hfree
  omega

/-- No other used block loses a byte to a release. -/
theorem FreeWrites.used {m m' : Bytes} {pre post : List Block} {b c : Block}
    (h : FreeWrites m m' pre b) (hp : Placed (pre ++ b :: post)) (hc : c ∈ pre ++ b :: post)
    (hu : c.free = false) (hne : c ≠ b) {x : Nat} (hlo : c.addr ≤ x) (hhi : x < c.stop blockSize) :
    m' x = m x := by
  have hsymm : Std.Symm (Block.Apart blockSize) := ⟨fun x y hxy => Or.symm hxy⟩
  have hcb := hp.apart.forall hc (by simp) hne
  simp only [Block.Apart, Block.stop] at hcb hhi
  refine h.outside x (by omega) fun l hl hlf => ?_
  have hmem : l ∈ pre := List.mem_of_getLast? hl
  have hcl : c ≠ l := by
    rintro rfl
    exact absurd hlf (by simp [hu])
  have hap := hp.apart.forall hc (by simp [hmem]) hcl
  simp only [Block.Apart, Block.stop] at hap
  omega

/-! ## The words that hold the flags -/

/-- The flags of the list are `0` or `1`. -/
def Flagged (m : Bytes) (bs : List Block) : Prop := ∀ b ∈ bs, freeAt m b.addr ≤ 1

theorem flagged_takeBlock {m : Bytes} {n a p : Nat} {bs bs' : List Block} (hs : Seg m p bs 0)
    (hp : Placed bs) (ha : alloc blockSize n bs = some (a, bs')) (h : Flagged m bs) :
    Flagged (takeBlock m n a) bs' := by
  have hB : blockSize = 12 := rfl
  obtain ⟨pre, b, post, rfl, -, hf, rfl, rfl⟩ := alloc_eq_some ha
  obtain ⟨r, -, hb⟩ := seg_append.mp hs
  have hsz : sizeAt m b.addr = b.size := hb.1 ▸ hb.2.1
  have hstop := Nat.le_of_lt (hp.stop_lt b (by simp))
  have hpos := hp.pos b (by simp)
  -- the flags of the other blocks are not touched
  have hkeep : ∀ c : Block, b.Apart blockSize c →
      freeAt (takeBlock m n b.addr) c.addr = freeAt m c.addr := by
    intro c hc
    refine load32_congr fun i hi => takeBlock_outside hpos hstop hsz hf.2 ?_
    simp only [Block.Apart, Block.stop] at hc ⊢
    omega
  intro c hc
  rcases List.mem_append.mp hc with hc | hc
  · rw [hkeep c (hp.append_apart c hc b (by simp)).symm]
    exact h c (by simp [hc])
  rcases List.mem_append.mp hc with hc | hc
  · rw [takeBlock_eq hpos hstop hsz hf.2]
    simp only [Block.stop] at hstop
    unfold Block.split at hc
    by_cases hlt : n + blockSize < b.size
    · rw [if_pos hlt] at hc ⊢
      rcases List.mem_pair.mp hc with rfl | rfl
      · dsimp only
        rw [freeAt, load32_store32_ne _ _ (by omega), load32_store32_ne _ _ (by omega),
          load32_store32_ne _ _ (by omega), load32_store32_ne _ _ (by omega),
          load32_store32_ne _ _ (by omega), load32_store32_same]
        exact Nat.zero_le 1
      · dsimp only
        rw [freeAt, load32_store32_ne _ _ (by omega), load32_store32_ne _ _ (by omega),
          load32_store32_ne _ _ (by omega), load32_store32_same]
        exact Nat.le_refl 1
    · rw [if_neg hlt] at hc ⊢
      rw [List.mem_singleton.mp hc, freeAt, load32_store32_same]
      exact Nat.zero_le 1
  · rw [hkeep c ((List.pairwise_cons.mp hp.right.apart).1 c hc)]
    exact h c (by simp [hc])

/-- A release changes one flag, to `1`. -/
theorem FreeWrites.flags {m m' : Bytes} {pre post : List Block} {b c : Block}
    (h : FreeWrites m m' pre b) (hp : Placed (pre ++ b :: post)) (hc : c ∈ pre ++ b :: post) :
    freeAt m' c.addr = if c.addr = b.addr then 1 else freeAt m c.addr := by
  have hsymm : Std.Symm (Block.Apart blockSize) := ⟨fun x y hxy => Or.symm hxy⟩
  by_cases heq : c.addr = b.addr
  · rw [if_pos heq, heq]
    exact h.flag
  · rw [if_neg heq]
    have hcb : c ≠ b := fun hcb => heq (by rw [hcb])
    refine h.freeAt_eq (headers_apart (hp.apart.forall hc (by simp) hcb)) fun l hl _ => ?_
    have hmem : l ∈ pre := List.mem_of_getLast? hl
    by_cases hcl : c = l
    · exact Or.inl (by rw [hcl])
    · exact Or.inr (headers_apart (hp.apart.forall hc (by simp [hmem]) hcl))

theorem FreeWrites.flagged {m m' : Bytes} {pre post : List Block} {b : Block}
    (h : FreeWrites m m' pre b) (hp : Placed (pre ++ b :: post)) (hu : b.free = false)
    (hm : Flagged m (pre ++ b :: post)) :
    Flagged m' (release blockSize b.addr (pre ++ b :: post)) := by
  intro x hx
  obtain ⟨c, hc, hxc⟩ := addr_mem_release hp.addr_ne hu hx
  rw [hxc, h.flags hp hc]
  split
  · exact Nat.le_refl 1
  · exact hm c hc

end MicroKernel.Heap
