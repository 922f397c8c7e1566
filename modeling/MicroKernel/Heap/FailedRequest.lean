import MicroKernel.Heap.Frames

set_option autoImplicit false

/-! # Requests that fail

When no block fits, `k_malloc` takes a frame, hangs it behind the list and starts again. A request
that no frame can serve goes on like this until `allocate_frame` has none left, and the `return
NULL` that ends it puts nothing back: a failed request leaves every frame marked. So it changes
nothing only where every frame has been marked already (`failsCleanly_iff`).
-/

namespace MicroKernel.Heap

open MicroKernel.Lib Bytes

/-! ## The two kinds of return -/

/-- `k_malloc` with its two `return` statements kept apart: a pointer, or `none` for `return NULL`. -/
def kMallocReturn (L : Layout) (size : Nat) : Nat → State → Option (State × Option Nat)
  | 0, _ => none
  | k + 1, s =>
      (findFit s.mem size steps s.freeList).bind fun current =>
        if current ≠ 0 then
          some ({ s with mem := takeBlock s.mem size current }, some (u32 (current + blockSize)))
        else
          let r := allocateFrame L s
          if r.2 = 0 then some (r.1, none)
          else (appendFrame r.1 r.2).bind (kMallocReturn L size k)

/-- `k_malloc` is this function with `NULL` for `none`. -/
theorem kMallocRec_eq_return (L : Layout) (size k : Nat) (s : State) :
    kMallocRec L size k s = (kMallocReturn L size k s).map fun r => (r.1, r.2.getD 0) := by
  induction k generalizing s with
  | zero => rfl
  | succ k ih =>
      rw [kMallocRec, kMallocReturn]
      cases findFit s.mem size steps s.freeList with
      | none => rfl
      | some current =>
          rw [Option.bind_some, Option.bind_some]
          by_cases hc : current ≠ 0
          · rw [if_pos hc, if_pos hc]
            rfl
          · rw [if_neg hc, if_neg hc]
            by_cases hr : (allocateFrame L s).2 = 0
            · simp [hr]
            · simp only [if_neg hr]
              cases appendFrame (allocateFrame L s).1 (allocateFrame L s).2 with
              | none => rfl
              | some t => exact ih t

/-! ## What a failed request owes its caller -/

/-- `b` is a block of the list. -/
inductive OnList (s : State) : Nat → Prop
  | head (h : s.freeList ≠ 0) : OnList s s.freeList
  | next {b : Nat} (h : OnList s b) (hn : nextAt s.mem b ≠ 0) : OnList s (nextAt s.mem b)

/-- `k_malloc(size)` returns a block. -/
def Succeeds (L : Layout) (s : State) (size : Nat) : Prop :=
  ∃ s' ptr, kMallocReturn L size steps s = some (s', some ptr)

/-- The list, its headers and the bitmap of `s'` are those of `s`, and what `s` could serve `s'`
can serve as well. -/
structure FailsCleanly (L : Layout) (s s' : State) : Prop where
  freeList : s'.freeList = s.freeList
  headers : ∀ b, OnList s b → sizeAt s'.mem b = sizeAt s.mem b ∧
    freeAt s'.mem b = freeAt s.mem b ∧ nextAt s'.mem b = nextAt s.mem b
  blocks : ∀ b, OnList s' b ↔ OnList s b
  frames : ∀ i, i < L.totalMemory / frameSize → testFrame s' i = testFrame s i
  serves : ∀ size, Succeeds L s size → Succeeds L s' size

theorem failsCleanly_refl (L : Layout) (s : State) : FailsCleanly L s s :=
  ⟨rfl, fun _ _ => ⟨rfl, rfl, rfl⟩, fun _ => Iff.rfl, fun _ _ => rfl, fun _ h => h⟩

/-! ## What it does -/

/-- `allocate_frame` fails only when every frame is marked, and then it does nothing. -/
theorem allocateFrame_eq_zero {L : Layout} {s : State} (h : (allocateFrame L s).2 = 0) :
    (allocateFrame L s).1 = s ∧
      ∀ i, 1 ≤ i → i < L.totalMemory / frameSize → testFrame s i = true := by
  obtain ⟨hsome, hnone⟩ := scanFrames_spec s (L.totalMemory / frameSize - 1) 1
  unfold allocateFrame at h ⊢
  cases hscan : scanFrames s (L.totalMemory / frameSize - 1) 1 with
  | none => exact ⟨rfl, fun i h1 h2 => hnone hscan i h1 (by omega)⟩
  | some k =>
      -- a frame from 1 on does not have the address 0
      rw [hscan] at h
      have hk := (hsome k hscan).1
      exact absurd h (Nat.mul_ne_zero (by omega) (by decide))

/-- Only the innermost call returns `NULL`: it finds no block and gets no frame. -/
theorem kMallocReturn_innermost {L : Layout} {size k : Nat} {s s' : State}
    (h : kMallocReturn L size k s = some (s', none)) :
    findFit s'.mem size steps s'.freeList = some 0 ∧ (allocateFrame L s').2 = 0 := by
  induction k generalizing s with
  | zero => cases h
  | succ k ih =>
      rw [kMallocReturn, Option.bind_eq_some_iff] at h
      obtain ⟨current, hfind, h⟩ := h
      split at h
      · cases h
      next hc =>
      rw [not_not.mp hc] at hfind
      by_cases hr : (allocateFrame L s).2 = 0
      · simp only [if_pos hr, (allocateFrame_eq_zero hr).1, Option.some.injEq, Prod.mk.injEq,
          and_true] at h
        rw [← h]
        exact ⟨hfind, hr⟩
      · simp only [if_neg hr] at h
        obtain ⟨t, -, ht⟩ := Option.bind_eq_some_iff.mp h
        exact ih ht

/-- After a failed request every frame is marked. -/
theorem kMallocReturn_marked {L : Layout} {size k : Nat} {s s' : State}
    (h : kMallocReturn L size k s = some (s', none)) :
    ∀ i, 1 ≤ i → i < L.totalMemory / frameSize → testFrame s' i = true :=
  (allocateFrame_eq_zero (kMallocReturn_innermost h).2).2

/-- The same request fails again, at once. -/
theorem kMallocReturn_again {L : Layout} {size k : Nat} {s s' : State} (j : Nat)
    (h : kMallocReturn L size k s = some (s', none)) :
    kMallocReturn L size (j + 1) s' = some (s', none) := by
  obtain ⟨hfind, hr⟩ := kMallocReturn_innermost h
  rw [kMallocReturn, hfind]
  simp [hr, (allocateFrame_eq_zero hr).1]

/-- A request that fails when every frame is marked does nothing. -/
theorem kMallocReturn_same {L : Layout} {size k : Nat} {s s' : State}
    (h : kMallocReturn L size k s = some (s', none))
    (hmarked : ∀ i, 1 ≤ i → i < L.totalMemory / frameSize → testFrame s i = true) : s' = s := by
  cases k with
  | zero => cases h
  | succ k =>
      have hscan : scanFrames s (L.totalMemory / frameSize - 1) 1 = none := by
        refine Option.eq_none_iff_forall_ne_some.mpr fun i hi => ?_
        obtain ⟨h1, h2, hclear, -⟩ := (scanFrames_spec s _ 1).1 i hi
        exact absurd (hmarked i h1 (by omega)) (by simp [hclear])
      have hr : allocateFrame L s = (s, 0) := by rw [allocateFrame, hscan]
      rw [kMallocReturn, Option.bind_eq_some_iff] at h
      obtain ⟨current, -, h⟩ := h
      split at h
      · cases h
      · simp only [hr, if_true, Option.some.injEq, Prod.mk.injEq, and_true] at h
        exact h.symm

/-- **When a failed request changes nothing.** In every state, a `k_malloc` that ends in `return
NULL` leaves the list, the headers, the bitmap and the requests that can be served as they were
exactly when every frame from 1 on has been marked before. -/
theorem failsCleanly_iff (L : Layout) (s s' : State) (size : Nat)
    (h : kMallocReturn L size steps s = some (s', none)) :
    kMalloc L s size = some (s', 0) ∧
      (FailsCleanly L s s' ↔
        ∀ i, 1 ≤ i → i < L.totalMemory / frameSize → testFrame s i = true) := by
  refine ⟨by rw [kMalloc, kMallocRec_eq_return, h]; rfl, ?_⟩
  constructor
  · intro hclean i h1 h2
    rw [← hclean.frames i h2]
    exact kMallocReturn_marked h i h1 h2
  · intro hmarked
    rw [kMallocReturn_same h hmarked]
    exact failsCleanly_refl L s

/-! ## A request that takes every frame -/

/-- A request larger than every block and every frame, on a machine whose frames end below the
bitmap. The induction is on the recursive calls of `k_malloc`. -/
theorem TakenFrames.oversize {L : Layout} {s : State} {xs ys : List Block} {k n : Nat} (f : Nat)
    (h : TakenFrames L s xs ys k) (hn : ∀ b ∈ xs ++ ys, b.size < n) (hframe : frameSize ≤ n)
    (hroom : L.totalMemory ≤ L.heapStart) (hf : L.totalMemory / frameSize ≤ k + (f + 1)) :
    ∃ s', kMallocReturn L n (f + 1) s = some (s', none) := by
  have hnofit : MicroKernel.Lib.alloc blockSize n (xs ++ ys) = none :=
    (alloc_eq_none_iff blockSize n _).mpr fun b hb hfit => absurd hfit.2 (Nat.not_le.mpr (hn b hb))
  induction f generalizing s ys k with
  | zero =>
      refine ⟨s, ?_⟩
      rw [kMallocReturn, findFit_list n h.seg h.placed, hnofit]
      simp [h.exhausted hf]
  | succ f ih =>
      rw [kMallocReturn, findFit_list n h.seg h.placed, hnofit]
      by_cases hk : k + 1 < L.totalMemory / frameSize
      · have hbelow : (k + 1 + 1) * frameSize ≤ L.heapStart :=
          calc (k + 1 + 1) * frameSize
              ≤ L.totalMemory / frameSize * frameSize := Nat.mul_le_mul_right _ hk
            _ ≤ L.totalMemory := Nat.div_mul_le_self _ _
            _ ≤ L.heapStart := hroom
        obtain ⟨s1, happend, hne, h1⟩ := h.append hk hbelow
        have hn1 : ∀ b ∈ xs ++ (ys ++ [⟨(k + 1) * frameSize, frameSize - blockSize, true⟩]),
            b.size < n := by
          intro b hb
          rw [← List.append_assoc] at hb
          rcases List.mem_append.mp hb with hb | hb
          · exact hn b hb
          · rw [List.mem_singleton.mp hb]
            simp only [frameSize, blockSize] at hframe ⊢
            omega
        simp only [Option.map_none, Option.getD_none, Option.bind_some, ne_eq, not_true_eq_false,
          if_false, if_neg hne, happend]
        exact ih h1 hn1 (by omega) ((alloc_eq_none_iff blockSize n _).mpr fun b hb hfit =>
          absurd hfit.2 (Nat.not_le.mpr (hn1 b hb)))
      · refine ⟨s, ?_⟩
        simp [h.exhausted (Nat.not_lt.mp hk)]

/-- Right after the boot such a request fails. -/
theorem oversize_fails (L : Layout) (hL : L.totalMemory ≠ 0) (hroom : L.totalMemory ≤ L.kernelEnd)
    (mem : Bytes) {n : Nat} (hn : heapEnd ≤ n) :
    ∃ s', kMallocReturn L n steps (boot L mem).heap = some (s', none) := by
  obtain ⟨-, hkernel, -, -⟩ := L.order
  refine (fallbackInv_boot L hL mem).taken.oversize 4294967295 ?_ ?_ (by omega) ?_
  · intro b hb
    rw [List.mem_singleton.mp hb]
    simp only [heapEnd, blockSize] at hn ⊢
    omega
  · simp only [heapEnd, frameSize] at hn ⊢
    omega
  · have htotal := L.totalMemory_lt
    simp only [frameSize]
    omega

/-- A machine with 2 MB, 640 KB of them below the hole, whose kernel image ends at `0x1f0000`. -/
def layout2 : Layout where
  kernelEnd := 0x001f0000
  totalMemory := 0x001a0000
  kernelBase_lt := by decide
  kernelEnd_le := by decide
  totalMemory_lt := by decide

/-- The first request of that machine is too large. It returns `NULL`, and all its frames, none of
them marked before, are gone. -/
theorem not_failsCleanly :
    ∃ s', kMallocReturn layout2 heapEnd steps (boot layout2 fun _ => 0).heap = some (s', none) ∧
      ¬ FailsCleanly layout2 (boot layout2 fun _ => 0).heap s' := by
  obtain ⟨s', h⟩ := oversize_fails layout2 (by decide) (by decide) (fun _ => 0) (Nat.le_refl heapEnd)
  refine ⟨s', h, fun hclean => ?_⟩
  have hmarked := kMallocReturn_marked h 1 (by decide) (by decide)
  have hclear : testFrame (boot layout2 fun _ => 0).heap 1 = false :=
    (fallbackInv_boot layout2 (by decide) fun _ => 0).frames 1 (by decide)
  rw [hclean.frames 1 (by decide), hclear] at hmarked
  cases hmarked

/-- The same request a second time: now it changes nothing. -/
theorem failsCleanly_iff_again :
    ∃ s, kMallocReturn layout2 heapEnd steps (boot layout2 fun _ => 0).heap = some (s, none) ∧
      kMallocReturn layout2 heapEnd steps s = some (s, none) ∧ FailsCleanly layout2 s s := by
  obtain ⟨s, h⟩ := oversize_fails layout2 (by decide) (by decide) (fun _ => 0) (Nat.le_refl heapEnd)
  have hagain : kMallocReturn layout2 heapEnd steps s = some (s, none) :=
    kMallocReturn_again 4294967295 h
  exact ⟨s, h, hagain, (failsCleanly_iff layout2 s s heapEnd hagain).2.mpr (kMallocReturn_marked h)⟩

end MicroKernel.Heap
