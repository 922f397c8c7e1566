import Mathlib.Data.List.Chain
import Mathlib.Data.List.TakeWhile
import Mathlib.Tactic

set_option autoImplicit false

/-! # First-fit block lists

A region of memory cut into blocks, each a header of `h` bytes followed by its payload. The
list of the blocks in list order carries two operations: `alloc` gives out the first free
block that fits and splits it when the rest has room for a header of its own, and `release`
frees a block and merges it with a free successor and a free predecessor *in the list*.

Nothing here knows how the list is stored. The notions are:

* `Tiled h lo hi bs`: the blocks follow one another in memory and fill `[lo, hi)`;
* `Coalesced bs`: no two list neighbours are both free;
* `used bs`: the blocks given out, in list order.

Both operations keep all three under control: `alloc` adds one used block, `release`
removes one, and neither touches any other used block.
-/

namespace MicroKernel.Lib

/-- A block: where its header is, the size of its payload, and whether it is free. -/
structure Block where
  addr : Nat
  size : Nat
  free : Bool
  deriving DecidableEq, Repr

namespace Block

/-- The first address behind the block. -/
def stop (h : Nat) (b : Block) : Nat := b.addr + h + b.size

/-- Two blocks share no byte. -/
def Apart (h : Nat) (b c : Block) : Prop := b.stop h ≤ c.addr ∨ c.stop h ≤ b.addr

/-- The block is free and has room for `n` bytes. -/
def Fits (n : Nat) (b : Block) : Prop := b.free = true ∧ n ≤ b.size

instance (n : Nat) (b : Block) : Decidable (b.Fits n) :=
  inferInstanceAs (Decidable (_ ∧ _))

/-- The block after giving out `n` bytes of it, with the free rest as a block of its own
when the rest is larger than a header. -/
def split (h n : Nat) (b : Block) : List Block :=
  if n + h < b.size then
    [{ b with size := n, free := false },
      { addr := b.addr + h + n, size := b.size - n - h, free := true }]
  else [{ b with free := false }]

end Block

/-! ## The operations -/

/-- Give out the first block that fits `n` bytes: its address and the list afterwards. -/
def alloc (h n : Nat) : List Block → Option (Nat × List Block)
  | [] => none
  | b :: bs =>
      if b.Fits n then some (b.addr, b.split h n ++ bs)
      else (alloc h n bs).map fun r => (r.1, b :: r.2)

/-- Put `b` in front of `bs`, merged with the head of `bs` when that is free. -/
def absorb (h : Nat) (b : Block) : List Block → List Block
  | [] => [b]
  | c :: cs => if c.free then { b with size := b.size + c.size + h } :: cs else b :: c :: cs

/-- Put `pre` in front of `bs`, merging the last block of `pre` with the head of `bs` when
it is free. -/
def mergePrev (h : Nat) : List Block → List Block → List Block
  | [], bs => bs
  | [p], bs => if p.free then absorb h p bs else p :: bs
  | p :: q :: pre, bs => p :: mergePrev h (q :: pre) bs

/-- Free the block at `a`. A block that is already free is left alone. -/
def release (h a : Nat) (bs : List Block) : List Block :=
  match bs.dropWhile (fun b => b.addr ≠ a) with
  | [] => bs
  | b :: post =>
      if b.free then bs
      else mergePrev h (bs.takeWhile (fun b => b.addr ≠ a))
        (absorb h { b with free := true } post)

/-- The blocks that are given out. -/
def used (bs : List Block) : List Block := bs.filter (fun b => !b.free)

/-! ## What the operations do -/

theorem alloc_eq_none_iff (h n : Nat) (bs : List Block) :
    alloc h n bs = none ↔ ∀ b ∈ bs, ¬ b.Fits n := by
  induction bs with
  | nil => simp [alloc]
  | cons b bs ih =>
      by_cases hf : b.Fits n
      · simp [alloc, hf]
      · simp [alloc, hf, ih]

/-- **What an allocation does.** It splits the first block that fits in place. -/
theorem alloc_eq_some {h n a : Nat} {bs bs' : List Block} (hs : alloc h n bs = some (a, bs')) :
    ∃ pre b post, bs = pre ++ b :: post ∧ (∀ x ∈ pre, ¬ x.Fits n) ∧ b.Fits n ∧ a = b.addr ∧
      bs' = pre ++ (b.split h n ++ post) := by
  induction bs generalizing bs' with
  | nil => simp [alloc] at hs
  | cons c cs ih =>
      by_cases hf : c.Fits n
      · simp only [alloc, if_pos hf, Option.some.injEq, Prod.mk.injEq] at hs
        exact ⟨[], c, cs, rfl, by simp, hf, hs.1.symm, by simpa using hs.2.symm⟩
      · simp only [alloc, if_neg hf, Option.map_eq_some_iff] at hs
        obtain ⟨⟨a', cs'⟩, hc, heq⟩ := hs
        simp only [Prod.mk.injEq] at heq
        obtain ⟨rfl, rfl⟩ := heq
        obtain ⟨pre, b, post, rfl, hpre, hb, ha, rfl⟩ := ih hc
        refine ⟨c :: pre, b, post, rfl, ?_, hb, ha, rfl⟩
        intro x hx
        rcases List.mem_cons.mp hx with rfl | hx
        · exact hf
        · exact hpre x hx

theorem takeWhile_ne_addr {a : Nat} {pre post : List Block} {b : Block}
    (hpre : ∀ x ∈ pre, x.addr ≠ a) (hb : b.addr = a) :
    (pre ++ b :: post).takeWhile (fun b => b.addr ≠ a) = pre := by
  rw [List.takeWhile_append_of_pos (by simpa using hpre), List.takeWhile_cons_of_neg (by simp [hb]),
    List.append_nil]

theorem dropWhile_ne_addr {a : Nat} {pre post : List Block} {b : Block}
    (hpre : ∀ x ∈ pre, x.addr ≠ a) (hb : b.addr = a) :
    (pre ++ b :: post).dropWhile (fun b => b.addr ≠ a) = b :: post := by
  rw [List.dropWhile_append_of_pos (by simpa using hpre), List.dropWhile_cons_of_neg (by simp [hb])]

/-- **What a release does** to a used block. -/
theorem release_append {h a : Nat} {pre post : List Block} {b : Block}
    (hpre : ∀ x ∈ pre, x.addr ≠ a) (hb : b.addr = a) (hu : b.free = false) :
    release h a (pre ++ b :: post)
      = mergePrev h pre (absorb h { b with free := true } post) := by
  unfold release
  rw [dropWhile_ne_addr hpre hb, takeWhile_ne_addr hpre hb]
  simp [hu]

theorem mergePrev_concat (h : Nat) (pre : List Block) (p : Block) (bs : List Block) :
    mergePrev h (pre ++ [p]) bs = pre ++ (if p.free then absorb h p bs else p :: bs) := by
  induction pre with
  | nil => rfl
  | cons q pre ih =>
      cases pre with
      | nil => simp [mergePrev]
      | cons r pre => simpa [mergePrev] using ih

theorem alloc_append_left {h n a : Nat} {xs xs' : List Block} (ys : List Block)
    (ha : alloc h n xs = some (a, xs')) : alloc h n (xs ++ ys) = some (a, xs' ++ ys) := by
  induction xs generalizing xs' with
  | nil => cases ha
  | cons b xs ih =>
      by_cases hf : b.Fits n
      · simp only [alloc, if_pos hf, Option.some.injEq, Prod.mk.injEq] at ha
        simp [alloc, if_pos hf, ← ha.1, ← ha.2]
      · simp only [alloc, if_neg hf, Option.map_eq_some_iff] at ha
        obtain ⟨⟨a', xs1⟩, h1, h2⟩ := ha
        simp only [Prod.mk.injEq] at h2
        obtain ⟨rfl, rfl⟩ := h2
        simp [alloc, if_neg hf, ih h1]

theorem alloc_append_right {h n : Nat} {xs : List Block} (ys : List Block)
    (ha : alloc h n xs = none) :
    alloc h n (xs ++ ys) = (alloc h n ys).map fun r => (r.1, xs ++ r.2) := by
  induction xs with
  | nil => simp
  | cons b xs ih =>
      rw [alloc_eq_none_iff] at ha
      have hb := ha b (by simp)
      have h' := ih ((alloc_eq_none_iff h n xs).mpr fun c hc => ha c (by simp [hc]))
      simp only [List.cons_append, alloc, if_neg hb, h', Option.map_map]
      rfl

/-- A release in the left part of a list stays there, unless it frees the last block of the
part next to a free block of the right one. -/
theorem release_append_left {h a : Nat} {pre post : List Block} {b : Block} (ys : List Block)
    (hpre : ∀ x ∈ pre, x.addr ≠ a) (hb : b.addr = a) (hu : b.free = false)
    (hseam : post = [] → ∀ c ∈ ys.head?, c.free = false) :
    release h a (pre ++ b :: post ++ ys) = release h a (pre ++ b :: post) ++ ys := by
  have habs : absorb h { b with free := true } (post ++ ys)
      = absorb h { b with free := true } post ++ ys := by
    cases post with
    | cons c cs =>
        by_cases hc : c.free
        · simp [absorb, hc]
        · simp [absorb, hc]
    | nil =>
        cases ys with
        | nil => simp
        | cons y ys => simp [absorb, hseam rfl y (by simp)]
  rw [List.append_assoc, List.cons_append, release_append hpre hb hu, release_append hpre hb hu,
    habs]
  rcases List.eq_nil_or_concat pre with rfl | ⟨pre, p, rfl⟩
  · rfl
  · rw [List.concat_eq_append, mergePrev_concat, mergePrev_concat, List.append_assoc]
    congr 1
    by_cases hp : p.free
    · rw [if_pos hp, if_pos hp]
      cases post with
      | nil => simp [absorb]
      | cons c cs =>
          by_cases hc : c.free
          · simp [absorb, hc]
          · simp [absorb, hc]
    · rw [if_neg hp, if_neg hp, List.cons_append]

/-- A release in the right part of a list stays there, unless it frees the first block of the
part next to a free block of the left one. -/
theorem release_append_right {h a : Nat} {xs pre post : List Block} {b : Block}
    (hxs : ∀ x ∈ xs, x.addr ≠ a) (hpre : ∀ x ∈ pre, x.addr ≠ a) (hb : b.addr = a)
    (hu : b.free = false) (hseam : pre = [] → ∀ c ∈ xs.getLast?, c.free = false) :
    release h a (xs ++ (pre ++ b :: post)) = xs ++ release h a (pre ++ b :: post) := by
  have hall : ∀ x ∈ xs ++ pre, x.addr ≠ a := by
    intro x hx
    rcases List.mem_append.mp hx with hx | hx
    · exact hxs x hx
    · exact hpre x hx
  rw [← List.append_assoc, release_append hall hb hu, release_append hpre hb hu]
  rcases List.eq_nil_or_concat pre with rfl | ⟨pre, p, rfl⟩
  · rw [List.append_nil]
    rcases List.eq_nil_or_concat xs with rfl | ⟨xs, x, rfl⟩
    · rfl
    · rw [List.concat_eq_append, mergePrev_concat]
      have hx := hseam rfl x (by simp)
      simp [hx, mergePrev]
  · rw [List.concat_eq_append, ← List.append_assoc, mergePrev_concat, mergePrev_concat,
      List.append_assoc]

/-! ## Where the blocks of a release are -/

theorem mem_absorb {h : Nat} {b x : Block} {bs : List Block} (hx : x ∈ absorb h b bs) :
    x.addr = b.addr ∨ x ∈ bs := by
  cases bs with
  | nil => exact Or.inl (by rw [List.mem_singleton.mp hx])
  | cons c cs =>
      by_cases hc : c.free
      · rw [absorb, if_pos hc] at hx
        rcases List.mem_cons.mp hx with rfl | hx
        · exact Or.inl rfl
        · exact Or.inr (List.mem_cons_of_mem c hx)
      · rw [absorb, if_neg hc] at hx
        rcases List.mem_cons.mp hx with rfl | hx
        · exact Or.inl rfl
        · exact Or.inr hx

theorem mem_mergePrev {h : Nat} {x : Block} {pre bs : List Block} (hx : x ∈ mergePrev h pre bs) :
    (∃ c ∈ pre, x.addr = c.addr) ∨ x ∈ bs := by
  rcases List.eq_nil_or_concat pre with rfl | ⟨pre, p, rfl⟩
  · exact Or.inr hx
  · rw [List.concat_eq_append] at hx ⊢
    rw [mergePrev_concat] at hx
    rcases List.mem_append.mp hx with hx | hx
    · exact Or.inl ⟨x, by simp [hx], rfl⟩
    · have hp : x.addr = p.addr ∨ x ∈ bs := by
        split at hx
        · exact mem_absorb hx
        · rcases List.mem_cons.mp hx with rfl | hx
          · exact Or.inl rfl
          · exact Or.inr hx
      exact hp.imp_left fun hp => ⟨p, by simp, hp⟩

/-- A release makes no new addresses. -/
theorem addr_mem_release {h : Nat} {pre post : List Block} {b x : Block}
    (hpre : ∀ c ∈ pre, c.addr ≠ b.addr) (hu : b.free = false)
    (hx : x ∈ release h b.addr (pre ++ b :: post)) :
    ∃ c ∈ pre ++ b :: post, x.addr = c.addr := by
  rw [release_append hpre rfl hu] at hx
  rcases mem_mergePrev hx with ⟨c, hc, hxc⟩ | hx
  · exact ⟨c, by simp [hc], hxc⟩
  · rcases mem_absorb hx with hxb | hx
    · exact ⟨b, by simp, hxb⟩
    · exact ⟨x, by simp [hx], rfl⟩

/-! ## Used blocks -/

@[simp] theorem used_append (xs ys : List Block) : used (xs ++ ys) = used xs ++ used ys :=
  List.filter_append ..

theorem mem_used {b : Block} {bs : List Block} : b ∈ used bs ↔ b ∈ bs ∧ b.free = false := by
  simp [used]

/-- The block that a split gives out. -/
def Block.given (h n : Nat) (b : Block) : Block :=
  { addr := b.addr, size := if n + h < b.size then n else b.size, free := false }

theorem used_split (h n : Nat) (b : Block) : used (b.split h n) = [b.given h n] := by
  unfold Block.split Block.given
  split <;> simp [used]

theorem le_size_given {h n : Nat} {b : Block} (hf : b.Fits n) : n ≤ (b.given h n).size := by
  unfold Block.given
  split
  · exact Nat.le_refl _
  · exact hf.2

/-- An allocation leaves the used blocks where they are. -/
theorem mem_alloc_of_used {h n a : Nat} {bs bs' : List Block} (ha : alloc h n bs = some (a, bs'))
    {c : Block} (hc : c ∈ bs) (hu : c.free = false) : c ∈ bs' := by
  obtain ⟨pre, b, post, rfl, -, hf, -, rfl⟩ := alloc_eq_some ha
  have hne : c ≠ b := by
    rintro rfl
    exact absurd hf.1 (by simp [hu])
  simp only [List.mem_append, List.mem_cons, hne, false_or] at hc ⊢
  exact hc.imp_right Or.inr

theorem used_absorb {h : Nat} {b : Block} (hb : b.free = true) (bs : List Block) :
    used (absorb h b bs) = used bs := by
  cases bs with
  | nil => simp [absorb, used, hb]
  | cons c cs =>
      by_cases hc : c.free
      · simp [absorb, used, hb, hc]
      · simp [absorb, used, hb, hc]

theorem used_mergePrev (h : Nat) (pre bs : List Block) :
    used (mergePrev h pre bs) = used pre ++ used bs := by
  rcases List.eq_nil_or_concat pre with rfl | ⟨pre, p, rfl⟩
  · rfl
  · rw [List.concat_eq_append, mergePrev_concat, used_append, used_append]
    by_cases hp : p.free
    · rw [if_pos hp, used_absorb hp]
      simp [used, hp]
    · rw [if_neg hp]
      simp [used, hp]

/-- A release takes exactly its block out of the used ones. -/
theorem used_release_append {h a : Nat} {pre post : List Block} {b : Block}
    (hpre : ∀ x ∈ pre, x.addr ≠ a) (hb : b.addr = a) (hu : b.free = false) :
    used (release h a (pre ++ b :: post)) = used pre ++ used post := by
  rw [release_append hpre hb hu, used_mergePrev, used_absorb (by rfl)]

/-! ## Tilings -/

/-- The blocks follow one another in memory and fill `[lo, hi)`. -/
def Tiled (h : Nat) : Nat → Nat → List Block → Prop
  | lo, hi, [] => lo = hi
  | lo, hi, b :: bs => b.addr = lo ∧ Tiled h (b.stop h) hi bs

theorem tiled_append {h lo hi : Nat} {xs ys : List Block} :
    Tiled h lo hi (xs ++ ys) ↔ ∃ mid, Tiled h lo mid xs ∧ Tiled h mid hi ys := by
  induction xs generalizing lo with
  | nil => simp [Tiled]
  | cons b xs ih =>
      simp only [List.cons_append, Tiled, ih]
      constructor
      · rintro ⟨ha, mid, h1, h2⟩
        exact ⟨mid, ⟨ha, h1⟩, h2⟩
      · rintro ⟨mid, ⟨ha, h1⟩, h2⟩
        exact ⟨ha, mid, h1, h2⟩

theorem Tiled.le {h lo hi : Nat} {bs : List Block} (ht : Tiled h lo hi bs) : lo ≤ hi := by
  induction bs generalizing lo with
  | nil => exact Nat.le_of_eq ht
  | cons b bs ih =>
      have h1 := ih ht.2
      have h2 := ht.1
      simp only [Block.stop] at h1
      omega

/-- Every block of a tiling lies inside the region. -/
theorem Tiled.mem_bounds {h lo hi : Nat} {bs : List Block} (ht : Tiled h lo hi bs) {b : Block}
    (hb : b ∈ bs) : lo ≤ b.addr ∧ b.stop h ≤ hi := by
  induction bs generalizing lo with
  | nil => cases hb
  | cons c bs ih =>
      rcases List.mem_cons.mp hb with rfl | hb
      · exact ⟨Nat.le_of_eq ht.1.symm, ht.2.le⟩
      · have h1 := ih ht.2 hb
        have h2 := ht.1
        simp only [Block.stop] at h1 ⊢
        omega

/-- Blocks of a tiling are in address order, each behind the end of those before it. -/
theorem Tiled.pairwise {h lo hi : Nat} {bs : List Block} (ht : Tiled h lo hi bs) :
    bs.Pairwise (fun b c => b.stop h ≤ c.addr) := by
  induction bs generalizing lo with
  | nil => exact List.Pairwise.nil
  | cons b bs ih =>
      refine List.Pairwise.cons ?_ (ih ht.2)
      intro c hc
      exact (ht.2.mem_bounds hc).1

/-- The headers and payloads of a tiling add up to the length of the region. -/
theorem Tiled.sum_size {h lo hi : Nat} {bs : List Block} (ht : Tiled h lo hi bs) :
    (bs.map (fun b => b.size + h)).sum = hi - lo := by
  induction bs generalizing lo with
  | nil => simp [show lo = hi from ht]
  | cons b bs ih =>
      have h1 := ih ht.2
      have h2 := ht.2.le
      have h3 := ht.1
      simp only [Block.stop] at h1 h2
      simp only [List.map_cons, List.sum_cons, h1]
      omega

theorem tiled_split {h lo hi n : Nat} {b : Block} {bs : List Block}
    (ht : Tiled h lo hi (b :: bs)) : Tiled h lo hi (b.split h n ++ bs) := by
  have h1 := ht.1
  unfold Block.split
  split
  next hlt =>
      refine ⟨h1, ?_, ?_⟩
      · rfl
      · have he : Block.stop h { addr := b.addr + h + n, size := b.size - n - h, free := true }
            = b.stop h := by simp only [Block.stop]; omega
        rw [he]
        exact ht.2
  next => exact ⟨h1, ht.2⟩

theorem tiled_absorb {h lo hi : Nat} {b : Block} {bs : List Block}
    (ht : Tiled h lo hi (b :: bs)) : Tiled h lo hi (absorb h b bs) := by
  cases bs with
  | nil => exact ht
  | cons c cs =>
      by_cases hc : c.free
      · obtain ⟨h1, h2, h3⟩ := ht
        have he : Block.stop h { b with size := b.size + c.size + h } = c.stop h := by
          simp only [Block.stop] at h2 ⊢; omega
        simp only [absorb, if_pos hc]
        refine ⟨h1, ?_⟩
        rw [he]
        exact h3
      · simp only [absorb, if_neg hc]
        exact ht

theorem tiled_mergePrev {h lo hi : Nat} {pre bs : List Block} (ht : Tiled h lo hi (pre ++ bs)) :
    Tiled h lo hi (mergePrev h pre bs) := by
  rcases List.eq_nil_or_concat pre with rfl | ⟨pre, p, rfl⟩
  · exact ht
  · rw [List.concat_eq_append, mergePrev_concat]
    rw [List.concat_eq_append, List.append_assoc, tiled_append] at ht
    obtain ⟨mid, h1, h2⟩ := ht
    refine tiled_append.mpr ⟨mid, h1, ?_⟩
    split
    · exact tiled_absorb h2
    · exact h2

theorem Tiled.alloc {h lo hi n a : Nat} {bs bs' : List Block} (ht : Tiled h lo hi bs)
    (hs : alloc h n bs = some (a, bs')) : Tiled h lo hi bs' := by
  obtain ⟨pre, b, post, rfl, -, -, -, rfl⟩ := alloc_eq_some hs
  obtain ⟨mid, h1, h2⟩ := tiled_append.mp ht
  exact tiled_append.mpr ⟨mid, h1, tiled_split h2⟩

/-- In a tiling with headers, a block is found at one place only. -/
theorem Tiled.addr_ne {h lo hi : Nat} {pre post : List Block} {b : Block} (hh : 0 < h)
    (ht : Tiled h lo hi (pre ++ b :: post)) : ∀ x ∈ pre, x.addr ≠ b.addr := by
  intro x hx
  have hp := (List.pairwise_append.mp ht.pairwise).2.2 x hx b (by simp)
  simp only [Block.stop] at hp
  omega

theorem Tiled.release {h lo hi a : Nat} {bs : List Block} (hh : 0 < h) (ht : Tiled h lo hi bs) :
    Tiled h lo hi (release h a bs) := by
  by_cases hm : ∃ b ∈ bs, b.addr = a
  · obtain ⟨b, hb, rfl⟩ := hm
    obtain ⟨pre, post, rfl⟩ := List.append_of_mem hb
    have hpre := ht.addr_ne hh
    by_cases hf : b.free
    · have he : MicroKernel.Lib.release h b.addr (pre ++ b :: post) = pre ++ b :: post := by
        unfold MicroKernel.Lib.release
        rw [dropWhile_ne_addr hpre rfl]
        simp [hf]
      rw [he]
      exact ht
    · rw [release_append hpre rfl (by simpa using hf)]
      obtain ⟨mid, h1, h2⟩ := tiled_append.mp ht
      exact tiled_mergePrev (tiled_append.mpr ⟨mid, h1, tiled_absorb ⟨h2.1, h2.2⟩⟩)
  · have he : MicroKernel.Lib.release h a bs = bs := by
      unfold MicroKernel.Lib.release
      have hd : bs.dropWhile (fun b => b.addr ≠ a) = [] :=
        List.dropWhile_eq_nil_iff.mpr fun b hb => by simpa using fun hba => hm ⟨b, hb, hba⟩
      rw [hd]
    rw [he]
    exact ht

/-! ## Where a free block goes -/

/-- `c` is the beginning of `d` or lies in its payload. -/
def Block.Within (h : Nat) (c d : Block) : Prop :=
  (c.addr = d.addr ∨ d.addr + h ≤ c.addr) ∧ c.stop h ≤ d.stop h

theorem Block.within_refl (h : Nat) (c : Block) : c.Within h c := ⟨Or.inl rfl, Nat.le_refl _⟩

theorem Block.Within.trans {h : Nat} {c d e : Block} (hcd : c.Within h d) (hde : d.Within h e) :
    c.Within h e := by
  obtain ⟨haddr, hstop⟩ := hcd
  obtain ⟨haddr', hstop'⟩ := hde
  exact ⟨by omega, Nat.le_trans hstop hstop'⟩

theorem Tiled.absorb_covers {h lo hi : Nat} {b c : Block} {bs : List Block}
    (ht : Tiled h lo hi (b :: bs)) (hc : c ∈ b :: bs) (hf : c.free = true) :
    ∃ d ∈ absorb h b bs, (b.free = true → d.free = true) ∧ c.Within h d := by
  cases bs with
  | nil => exact ⟨c, hc, fun _ => hf, c.within_refl h⟩
  | cons e es =>
      by_cases he : e.free
      · rw [absorb, if_pos he]
        obtain ⟨-, haddr, -⟩ := ht
        simp only [Block.stop] at haddr
        rcases List.mem_cons.mp hc with rfl | hc
        · refine ⟨_, List.mem_cons_self, fun _ => hf, Or.inl rfl, ?_⟩
          simp only [Block.stop]
          omega
        rcases List.mem_cons.mp hc with rfl | hc
        · refine ⟨_, List.mem_cons_self, id, Or.inr ?_, ?_⟩
          · show b.addr + h ≤ c.addr
            omega
          · simp only [Block.stop]
            omega
        · exact ⟨c, List.mem_cons_of_mem _ hc, fun _ => hf, c.within_refl h⟩
      · rw [absorb, if_neg he]
        exact ⟨c, hc, fun _ => hf, c.within_refl h⟩

theorem Tiled.mergePrev_covers {h lo hi : Nat} {c : Block} {pre bs : List Block}
    (ht : Tiled h lo hi (pre ++ bs)) (hc : c ∈ pre ++ bs) (hf : c.free = true) :
    ∃ d ∈ mergePrev h pre bs, d.free = true ∧ c.Within h d := by
  rcases List.eq_nil_or_concat pre with rfl | ⟨pre, p, rfl⟩
  · exact ⟨c, hc, hf, c.within_refl h⟩
  · rw [List.concat_eq_append, List.append_assoc, List.singleton_append] at ht hc
    rw [List.concat_eq_append, mergePrev_concat]
    rcases List.mem_append.mp hc with hc | hc
    · exact ⟨c, List.mem_append_left _ hc, hf, c.within_refl h⟩
    · by_cases hp : p.free
      · obtain ⟨mid, -, htp⟩ := tiled_append.mp ht
        obtain ⟨d, hd, hdf, hcd⟩ := htp.absorb_covers hc hf
        rw [if_pos hp]
        exact ⟨d, List.mem_append_right _ hd, hdf hp, hcd⟩
      · rw [if_neg hp]
        exact ⟨c, List.mem_append_right _ hc, hf, c.within_refl h⟩

/-- After a release every block that was free, and the one released, lies in a free block. -/
theorem Tiled.release_covers {h lo hi : Nat} {pre post : List Block} {b c : Block} (hh : 0 < h)
    (ht : Tiled h lo hi (pre ++ b :: post)) (hu : b.free = false)
    (hc : c ∈ pre ++ { b with free := true } :: post) (hf : c.free = true) :
    ∃ d ∈ MicroKernel.Lib.release h b.addr (pre ++ b :: post), d.free = true ∧ c.Within h d := by
  rw [release_append (ht.addr_ne hh) rfl hu]
  obtain ⟨mid, hpre, hb⟩ := tiled_append.mp ht
  have hb' : Tiled h mid hi ({ b with free := true } :: post) := hb
  have htiled := tiled_append.mpr ⟨mid, hpre, tiled_absorb hb'⟩
  rcases List.mem_append.mp hc with hc | hc
  · exact htiled.mergePrev_covers (List.mem_append_left _ hc) hf
  · -- first the block itself takes its successor, then its predecessor takes both
    obtain ⟨d, hd, hdf, hcd⟩ := hb'.absorb_covers hc hf
    obtain ⟨e, he, hef, hde⟩ := htiled.mergePrev_covers (List.mem_append_right _ hd) (hdf rfl)
    exact ⟨e, he, hef, hcd.trans hde⟩

/-! ## Coalescing -/

/-- No two list neighbours are both free. -/
def Coalesced (bs : List Block) : Prop :=
  bs.IsChain (fun b c => ¬ (b.free = true ∧ c.free = true))

theorem coalesced_absorb {h : Nat} {b : Block} {bs : List Block} (hc : Coalesced bs) :
    Coalesced (absorb h b bs) := by
  cases bs with
  | nil => exact List.isChain_singleton b
  | cons c cs =>
      by_cases hf : c.free
      · simp only [absorb, if_pos hf]
        obtain ⟨h1, h2⟩ := List.isChain_cons.mp hc
        exact h2.cons fun y hy hn => h1 y hy ⟨hf, hn.2⟩
      · simp only [absorb, if_neg hf]
        exact hc.cons fun y hy hn => hf (by simp at hy; subst hy; exact hn.2)

/-- A coalesced prefix stays coalesced in front of a merge: what its last block meets is
either merged into it or not free. -/
theorem coalesced_mergePrev {h : Nat} {pre bs : List Block} (hp : Coalesced pre)
    (hc : Coalesced bs) : Coalesced (mergePrev h pre bs) := by
  rcases List.eq_nil_or_concat pre with rfl | ⟨pre, p, rfl⟩
  · exact hc
  · rw [List.concat_eq_append] at hp ⊢
    rw [mergePrev_concat]
    obtain ⟨h1, -, h3⟩ := List.isChain_append.mp hp
    by_cases hf : p.free
    · rw [if_pos hf]
      refine List.isChain_append.mpr ⟨h1, coalesced_absorb hc, ?_⟩
      intro x hx y _ hn
      exact h3 x hx p (by simp) ⟨hn.1, hf⟩
    · rw [if_neg hf]
      refine List.isChain_append.mpr ⟨h1, hc.cons fun y _ hn => hf hn.1, ?_⟩
      intro x _ y hy hn
      simp only [List.head?_cons, Option.mem_def, Option.some.injEq] at hy
      subst hy
      exact hf hn.2

theorem Coalesced.alloc {h n a : Nat} {bs bs' : List Block} (hc : Coalesced bs)
    (hs : alloc h n bs = some (a, bs')) : Coalesced bs' := by
  obtain ⟨pre, b, post, rfl, -, hb, -, rfl⟩ := alloc_eq_some hs
  obtain ⟨h1, h2, -⟩ := List.isChain_append.mp hc
  obtain ⟨h4, h5⟩ := List.isChain_cons.mp h2
  -- the given block is in front of its rest, and the rest of what `b` was in front of
  have hs : Coalesced (b.split h n ++ post) := by
    unfold Block.split
    split
    · refine List.IsChain.cons (h5.cons fun y hy hn => h4 y hy ⟨hb.1, hn.2⟩) ?_
      intro y _ hn
      exact absurd hn.1 (by simp)
    · exact h5.cons fun y _ hn => absurd hn.1 (by simp)
  have hhd : ∀ y ∈ (b.split h n ++ post).head?, y.free = false := by
    intro y hy
    unfold Block.split at hy
    split at hy
    · simp only [List.cons_append, List.head?_cons, Option.mem_def, Option.some.injEq] at hy
      rw [← hy]
    · simp only [List.cons_append, List.head?_cons, Option.mem_def, Option.some.injEq] at hy
      rw [← hy]
  refine List.isChain_append.mpr ⟨h1, hs, ?_⟩
  intro x _ y hy hn
  simp [hhd y hy] at hn

theorem Coalesced.release {h a : Nat} {pre post : List Block} {b : Block}
    (hc : Coalesced (pre ++ b :: post)) (hpre : ∀ x ∈ pre, x.addr ≠ a) (hb : b.addr = a)
    (hu : b.free = false) : Coalesced (release h a (pre ++ b :: post)) := by
  rw [release_append hpre hb hu]
  obtain ⟨h1, h2, -⟩ := List.isChain_append.mp hc
  exact coalesced_mergePrev h1 (coalesced_absorb (List.isChain_cons.mp h2).2)

/-- A free block of a coalesced list has nothing to merge with. -/
theorem Coalesced.absorb_eq {h : Nat} {b : Block} {bs : List Block} (hc : Coalesced (b :: bs))
    (hf : b.free = true) : absorb h b bs = b :: bs := by
  cases bs with
  | nil => rfl
  | cons c cs =>
      have hbc := (List.isChain_cons.mp hc).1 c (by simp)
      rw [absorb, if_neg fun hcf => hbc ⟨hf, hcf⟩]

theorem Coalesced.mergePrev_eq {h : Nat} {b : Block} {pre bs : List Block}
    (hc : Coalesced (pre ++ b :: bs)) (hf : b.free = true) :
    mergePrev h pre (b :: bs) = pre ++ b :: bs := by
  rcases List.eq_nil_or_concat pre with rfl | ⟨pre, p, rfl⟩
  · rfl
  · rw [List.concat_eq_append] at hc ⊢
    have hpb := (List.isChain_append.mp hc).2.2 p (by simp) b (by simp)
    rw [mergePrev_concat, if_neg fun hpf => hpb ⟨hpf, hf⟩, List.append_assoc, List.singleton_append]

/-- The block given out takes its rest back when it is released. -/
theorem absorb_split {h n : Nat} {b : Block} {post : List Block} (hf : b.Fits n)
    (hc : Coalesced (b :: post)) :
    ∃ rest, b.split h n = b.given h n :: rest ∧
      absorb h { b.given h n with free := true } (rest ++ post) = b :: post := by
  obtain ⟨addr, size, free⟩ := b
  have hfree : free = true := hf.1
  subst hfree
  unfold Block.split Block.given
  by_cases hlt : n + h < size
  · have hsize : n + (size - n - h) + h = size := by omega
    refine ⟨[⟨addr + h + n, size - n - h, true⟩], by simp [hlt], ?_⟩
    simp [absorb, hlt, hsize]
  · refine ⟨[], by simp [hlt], ?_⟩
    simpa [hlt] using hc.absorb_eq rfl

/-- **Allocate and release.** In a coalesced tiling the one undoes the other. -/
theorem release_alloc {h lo hi n a : Nat} {bs bs' : List Block} (hh : 0 < h)
    (ht : Tiled h lo hi bs) (hc : Coalesced bs) (ha : alloc h n bs = some (a, bs')) :
    release h a bs' = bs := by
  obtain ⟨pre, b, post, rfl, -, hf, rfl, rfl⟩ := alloc_eq_some ha
  obtain ⟨rest, hsplit, habsorb⟩ := absorb_split (h := h) hf (List.isChain_append.mp hc).2.1
  calc release h b.addr (pre ++ (b.split h n ++ post))
      = release h b.addr (pre ++ b.given h n :: (rest ++ post)) := by
        rw [hsplit, List.cons_append]
    _ = mergePrev h pre (absorb h { b.given h n with free := true } (rest ++ post)) :=
        release_append (ht.addr_ne hh) rfl rfl
    _ = mergePrev h pre (b :: post) := by rw [habsorb]
    _ = pre ++ b :: post := hc.mergePrev_eq hf.1

/-- A coalesced list without used blocks has one block at most. -/
theorem Coalesced.length_le_one {bs : List Block} (hc : Coalesced bs)
    (hf : ∀ b ∈ bs, b.free = true) : bs.length ≤ 1 := by
  cases bs with
  | nil => exact Nat.zero_le 1
  | cons b bs =>
      cases bs with
      | nil => exact Nat.le_refl 1
      | cons c cs =>
          have hbc := (List.isChain_cons.mp hc).1 c (by simp)
          exact absurd ⟨hf b (by simp), hf c (by simp)⟩ hbc

/-- **Full coalescing.** A coalesced tiling of a region without used blocks is one free block,
the whole region. -/
theorem Tiled.eq_singleton {h lo hi : Nat} {bs : List Block} (ht : Tiled h lo hi bs)
    (hc : Coalesced bs) (hf : ∀ b ∈ bs, b.free = true) (hlt : lo < hi) :
    bs = [{ addr := lo, size := hi - lo - h, free := true }] := by
  have hlen := hc.length_le_one hf
  cases bs with
  | nil => exact absurd (show lo = hi from ht) (by omega)
  | cons b bs =>
      rw [List.length_cons] at hlen
      have hnil : bs = [] := List.eq_nil_of_length_eq_zero (by omega)
      subst hnil
      obtain ⟨haddr, hstop⟩ := ht
      replace hstop : b.addr + h + b.size = hi := hstop
      have hsize : b.size = hi - lo - h := by omega
      have hfree := hf b (by simp)
      cases b
      simp_all

end MicroKernel.Lib
