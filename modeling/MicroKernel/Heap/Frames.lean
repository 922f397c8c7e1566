import MicroKernel.Heap.Fallback
import MicroKernel.Lib.Pool

set_option autoImplicit false

/-! # The frame allocator (`mm/kmalloc.c`)

`allocate_frame` and `free_frame` over any sequence of calls after `initialize_memory_system`.
Frame 0 is marked at the start and is never looked at, so the frames of the pool are those from 1
on that lie below `total_memory`.
-/

namespace MicroKernel.Heap

open MicroKernel.Lib Bytes

/-! ## The code -/

/-- `clear_frame`. -/
def clearFrame (s : State) (frame : Nat) : State :=
  let a := s.frameBitmap + frame / 8
  { s with mem := store8 s.mem a (UInt8.ofNat ((s.mem a).toNat &&& (255 - 2 ^ (frame % 8)))) }

/-- `free_frame`. -/
def freeFrame (s : State) (addr : Nat) : State := clearFrame s (addr / frameSize)

/-- A call of the allocator. -/
inductive FrameCall
  | allocate
  | free (addr : Nat)

/-- The state after a call, and the address that `allocate_frame` returns. -/
def FrameCall.run (L : Layout) (s : State) : FrameCall → State × Nat
  | allocate => allocateFrame L s
  | free addr => (freeFrame s addr, 0)

/-- What a call did to the pool of frames. -/
def FrameCall.event : FrameCall → Nat → PoolEvent
  | allocate, addr => if addr = 0 then .exhausted else .allocated (addr / frameSize)
  | free addr, _ => .freed (addr / frameSize)

/-! ## Single calls -/

/-- The frames whose bit is set. -/
def markedFrames (s : State) : Set Nat := {i | testFrame s i = true}

theorem testFrame_clearFrame (s : State) (i j : Nat) :
    testFrame (clearFrame s i) j = (!decide (j = i) && testFrame s j) := by
  unfold testFrame clearFrame
  dsimp only
  by_cases hb : j / 8 = i / 8
  · have hi : 2 ^ (i % 8) < 2 ^ 8 := Nat.pow_lt_pow_right (by decide) (Nat.mod_lt i (by decide))
    have hbyte := (s.mem (s.frameBitmap + i / 8)).toNat_lt
    have hbits : (255 - 2 ^ (i % 8)).testBit (j % 8)
        = (decide (j % 8 < 8) && !(2 ^ (i % 8)).testBit (j % 8)) := by
      rw [← Nat.testBit_two_pow_sub_succ hi]
      congr 1
      omega
    have hiff : decide (i % 8 = j % 8) = decide (j = i) := by
      rw [decide_eq_decide]
      omega
    rw [hb, store8_same, UInt8.toNat_ofNat', Nat.mod_eq_of_lt
      (Nat.lt_of_le_of_lt Nat.and_le_left hbyte), Nat.testBit_and, hbits, Nat.testBit_two_pow, hiff,
      Bool.and_comm]
    simp [Nat.mod_lt]
  · have hne : j ≠ i := fun h => hb (by rw [h])
    rw [store8_ne _ _ (by omega)]
    simp [hne]

/-- What the scan of `allocate_frame` finds: the first clear frame, or none when all are set. -/
theorem scanFrames_spec (s : State) (n i : Nat) :
    (∀ k, scanFrames s n i = some k →
      i ≤ k ∧ k < i + n ∧ testFrame s k = false ∧ ∀ j, i ≤ j → j < k → testFrame s j = true) ∧
    (scanFrames s n i = none → ∀ j, i ≤ j → j < i + n → testFrame s j = true) := by
  induction n generalizing i with
  | zero => exact ⟨fun k hk => (by cases hk), fun _ j h1 h2 => (by omega)⟩
  | succ n ih =>
      obtain ⟨ih1, ih2⟩ := ih (i + 1)
      cases ht : testFrame s i with
      | false =>
          have heq : scanFrames s (n + 1) i = some i := by simp [scanFrames, ht]
          rw [heq]
          refine ⟨?_, fun hnone => by cases hnone⟩
          rintro k hk
          cases hk
          exact ⟨Nat.le_refl _, by omega, ht, fun j h1 h2 => by omega⟩
      | true =>
          have heq : scanFrames s (n + 1) i = scanFrames s n (i + 1) := by simp [scanFrames, ht]
          -- frame `i` is set, and the rest of the scan looks at the others
          have hset : ∀ j, i ≤ j → (i + 1 ≤ j → testFrame s j = true) → testFrame s j = true := by
            intro j h1 h2
            rcases Nat.eq_or_lt_of_le h1 with rfl | hlt
            · exact ht
            · exact h2 hlt
          rw [heq]
          refine ⟨fun k hk => ?_, fun hn j h1 h2 => hset j h1 fun h3 => ih2 hn j h3 (by omega)⟩
          obtain ⟨h1, h2, h3, h4⟩ := ih1 k hk
          exact ⟨by omega, by omega, h3, fun j h5 h6 => hset j h5 fun h7 => h4 j h7 h6⟩

/-- `allocate_frame` returns a frame address below `total_memory`, or `0`. -/
theorem allocateFrame_addr (L : Layout) (s : State) (h : (allocateFrame L s).2 ≠ 0) :
    frameSize ∣ (allocateFrame L s).2 ∧ (allocateFrame L s).2 + frameSize ≤ L.totalMemory := by
  unfold allocateFrame at h ⊢
  cases hscan : scanFrames s (L.totalMemory / frameSize - 1) 1 with
  | none => simp [hscan] at h
  | some i =>
      obtain ⟨h1, h2, -, -⟩ := (scanFrames_spec s _ 1).1 i hscan
      have hle : (i + 1) * frameSize ≤ L.totalMemory :=
        calc (i + 1) * frameSize ≤ L.totalMemory / frameSize * frameSize :=
              Nat.mul_le_mul_right _ (by omega)
          _ ≤ L.totalMemory := Nat.div_mul_le_self _ _
      exact ⟨Dvd.intro_left i rfl, by rwa [Nat.succ_mul] at hle⟩

/-- **A single call** is lawful for the frames that are marked, and marks what its event says. -/
theorem FrameCall.lawful (L : Layout) (s : State) (c : FrameCall) :
    (c.event (c.run L s).2).Lawful 1 (L.totalMemory / frameSize) (markedFrames s) ∧
    SameUnits 1 (L.totalMemory / frameSize) (markedFrames (c.run L s).1)
      ((c.event (c.run L s).2).apply (markedFrames s)) := by
  cases c with
  | free addr =>
      refine ⟨trivial, fun j _ _ => ?_⟩
      simp [run, event, PoolEvent.apply, markedFrames, freeFrame, testFrame_clearFrame, and_comm]
  | allocate =>
      obtain ⟨hsome, hnone⟩ := scanFrames_spec s (L.totalMemory / frameSize - 1) 1
      unfold run event allocateFrame
      cases hscan : scanFrames s (L.totalMemory / frameSize - 1) 1 with
      | none => exact ⟨fun j h1 h2 => hnone hscan j h1 (by omega), fun j _ _ => Iff.rfl⟩
      | some i =>
          obtain ⟨h1, h2, hclear, hbelow⟩ := hsome i hscan
          have hne : i * frameSize ≠ 0 := Nat.mul_ne_zero (by omega) (by decide)
          have hdiv : i * frameSize / frameSize = i := Nat.mul_div_cancel i (by decide)
          dsimp only
          rw [if_neg hne, hdiv]
          refine ⟨⟨⟨h1, by omega, by simp [markedFrames, hclear]⟩, ?_⟩, fun j _ _ => ?_⟩
          · rintro j ⟨h3, -, h5⟩
            by_contra hlt
            exact h5 (hbelow j h3 (by omega))
          · simp [PoolEvent.apply, markedFrames, testFrame_setFrame, or_comm]

/-! ## Runs -/

/-- After `initialize_memory_system` no frame of the pool is in use. -/
theorem markedFrames_initialize (L : Layout) (mem : Bytes) :
    SameUnits 1 (L.totalMemory / frameSize) (markedFrames (initializeMemorySystem L ⟨mem, 0, 0⟩))
      ∅ := by
  intro j h1 h2
  have hL : L.totalMemory ≠ 0 := fun h0 => by simp [h0] at h2
  have hframe : testFrame (initializeMemorySystem L ⟨mem, 0, 0⟩) j = decide (j ≤ 0) :=
    (fallbackInv_boot L hL mem).frames j h2
  simp [markedFrames, hframe]
  omega

end MicroKernel.Heap
