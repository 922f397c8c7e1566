import MicroKernel.Lib.Word

set_option autoImplicit false

/-! # The timer (`kernel/time/pit.c`)

`pit_delay` reads the tick counter over and over, and compares what it has gone on since the start
with the time it has been asked for and with a failsafe of ten thousand ticks. Both differences are
of the same counter, so the failsafe ends every longer delay (`pitDelay_returns`).

The counter is a 32-bit word and wraps. What the loop reads is a list: after each reading the timer
interrupt comes any number of times.
-/

namespace MicroKernel.Time

/-- `timer_irq_handler`: the counter afterwards. -/
def timerIrqHandler (timerTickCount : UInt32) : UInt32 := timerTickCount + 1

/-- `failsafe_timeout`. -/
def failsafeTimeout : UInt32 := 10000

/-- How `pit_delay` returns: after how many readings of the loop, and whether with a warning. -/
structure Exit where
  readings : Nat
  warned : Bool
  deriving DecidableEq

/-- The loop of `pit_delay` over what it reads, behind `n` readings; no result where it is still
waiting after the last. -/
def delayLoop (startTick ticksToWait failsafeStart : UInt32) : Nat → List UInt32 → Option Exit
  | _, [] => none
  | n, currentTick :: ticks =>
      if ticksToWait ≤ currentTick - startTick then some ⟨n + 1, false⟩
      else if failsafeTimeout ≤ currentTick - failsafeStart then some ⟨n + 1, true⟩
      else delayLoop startTick ticksToWait failsafeStart (n + 1) ticks

/-- `pit_delay`, over all readings of the counter. -/
def pitDelay (milliseconds : UInt32) : List UInt32 → Option Exit
  | [] => none
  | startTick :: ticks => delayLoop startTick milliseconds startTick 0 ticks

/-- What is read of a counter when the interrupt comes `d` times in front of each reading, for the
numbers `d` of a list. -/
def readings (timerTickCount : UInt32) : List Nat → List UInt32
  | [] => []
  | d :: ds => timerIrqHandler^[d] timerTickCount :: readings (timerIrqHandler^[d] timerTickCount) ds

/-- The ticks that have elapsed at reading number `k`. -/
def elapsed (ds : List Nat) (k : Nat) : Nat := (ds.take k).sum

/-- Reading number `k` is the first one with `t` ticks elapsed. -/
def FirstElapsed (ds : List Nat) (t k : Nat) : Prop :=
  0 < k ∧ k ≤ ds.length ∧ t ≤ elapsed ds k ∧ ∀ j, 0 < j → j < k → elapsed ds j < t

theorem timerIrqHandler_iterate (d : Nat) (c : UInt32) :
    timerIrqHandler^[d] c = c + UInt32.ofNat d := by
  induction d with
  | zero => simp
  | succ d ih =>
      rw [Function.iterate_succ_apply', ih, timerIrqHandler, UInt32.add_assoc, UInt32.ofNat_add]
      rfl

theorem elapsed_cons (d : Nat) (ds : List Nat) (k : Nat) :
    elapsed (d :: ds) (k + 1) = d + elapsed ds k := by
  rw [elapsed, List.take_succ_cons, List.sum_cons, elapsed]

/-- What has elapsed later is counted from the first reading on. -/
theorem firstElapsed_cons {d : Nat} (ds : List Nat) {t : Nat} (k : Nat) (hd : d < t) :
    FirstElapsed (d :: ds) t (k + 1) ↔ FirstElapsed ds (t - d) k := by
  have hfirst : elapsed (d :: ds) 1 = d := by rw [elapsed_cons]; rfl
  constructor
  · rintro ⟨-, hlen, hle, hbefore⟩
    rw [List.length_cons] at hlen
    rw [elapsed_cons] at hle
    have hk : 0 < k := by
      rcases Nat.eq_zero_or_pos k with rfl | hk
      · change t ≤ d + 0 at hle
        omega
      · exact hk
    refine ⟨hk, by omega, by omega, fun j h0 hj => ?_⟩
    have hj' := hbefore (j + 1) (by omega) (by omega)
    rw [elapsed_cons] at hj'
    omega
  · rintro ⟨h0, hlen, hle, hbefore⟩
    refine ⟨by omega, by rw [List.length_cons]; omega, by rw [elapsed_cons]; omega,
      fun j hj0 hj => ?_⟩
    obtain ⟨i, rfl⟩ : ∃ i, j = i + 1 := ⟨j - 1, by omega⟩
    rcases Nat.eq_zero_or_pos i with rfl | hi
    · rwa [hfirst]
    · have hi' := hbefore i hi (by omega)
      rw [elapsed_cons]
      omega

/-- Enough has elapsed at the first reading. -/
theorem firstElapsed_one {d : Nat} (ds : List Nat) {t k : Nat} (hd : t ≤ d) :
    FirstElapsed (d :: ds) t k ↔ k = 1 := by
  have hfirst : elapsed (d :: ds) 1 = d := by rw [elapsed_cons]; rfl
  constructor
  · rintro ⟨h0, -, -, hbefore⟩
    by_contra hk
    have h1 := hbefore 1 (by decide) (by omega)
    omega
  · rintro rfl
    exact ⟨by decide, by rw [List.length_cons]; omega, by rwa [hfirst],
      fun j h0 h1 => by omega⟩

/-- The difference of the counter is what has elapsed, as long as that fits. -/
theorem sub_toNat (start : UInt32) {e : Nat} (he : e < 2 ^ 32) :
    (start + UInt32.ofNat e - start).toNat = e := by
  rw [UInt32.add_comm, UInt32.add_sub_cancel, UInt32.toNat_ofNat', Nat.mod_eq_of_lt he]

theorem lt_readings {start ms : UInt32} {n : Nat} {ticks : List UInt32} {r : Exit}
    (h : delayLoop start ms start n ticks = some r) : n < r.readings := by
  induction ticks generalizing n with
  | nil => cases h
  | cons currentTick ticks ih =>
      rw [delayLoop] at h
      split at h
      · cases h
        exact Nat.lt_succ_self n
      · split at h
        · cases h
          exact Nat.lt_succ_self n
        · exact Nat.lt_trans (Nat.lt_succ_self n) (ih h)

/-- One reading, with `e` ticks elapsed. -/
theorem delayLoop_cons (ms start : UInt32) (n : Nat) {e : Nat} (he : e < 2 ^ 32)
    (ticks : List UInt32) :
    delayLoop start ms start n ((start + UInt32.ofNat e) :: ticks) =
      if min ms.toNat 10000 ≤ e then some ⟨n + 1, decide (e < ms.toNat)⟩
      else delayLoop start ms start (n + 1) ticks := by
  have hdelay : ms ≤ start + UInt32.ofNat e - start ↔ ms.toNat ≤ e := by
    rw [UInt32.le_iff_toNat_le, sub_toNat start he]
  have hfailsafe : failsafeTimeout ≤ start + UInt32.ofNat e - start ↔ 10000 ≤ e := by
    rw [UInt32.le_iff_toNat_le, sub_toNat start he]
    rfl
  rw [delayLoop]
  by_cases hms : ms.toNat ≤ e
  · rw [if_pos (hdelay.mpr hms), if_pos (by omega), decide_eq_false (by omega)]
  · rw [if_neg (mt hdelay.mp hms), decide_eq_true (by omega)]
    exact if_congr (hfailsafe.trans (by omega)) rfl rfl

/-- **The loop**, when `e` ticks have elapsed and that is not enough: it ends at the first reading
where it is. Nothing wraps before that, as `e` is less than the failsafe. -/
theorem delayLoop_eq (ms start : UInt32) (n : Nat) {ds : List Nat} (hds : ∀ d ∈ ds, d < 2 ^ 31)
    {e : Nat} (he : e < 10000) (k : Nat) (w : Bool) :
    delayLoop start ms start n (readings (start + UInt32.ofNat e) ds) = some ⟨n + k, w⟩ ↔
      FirstElapsed ds (min ms.toNat 10000 - e) k ∧ w = decide (e + elapsed ds k < ms.toNat) := by
  induction ds generalizing n e k with
  | nil =>
      refine iff_of_false (by simp [readings, delayLoop]) fun h => ?_
      have hpos := h.1.1
      have hlen := h.1.2.1
      rw [List.length_nil] at hlen
      omega
  | cons d ds ih =>
      rw [List.forall_mem_cons] at hds
      have hnext : timerIrqHandler^[d] (start + UInt32.ofNat e) = start + UInt32.ofNat (e + d) := by
        rw [timerIrqHandler_iterate, UInt32.add_assoc, UInt32.ofNat_add]
      rw [readings, hnext, delayLoop_cons ms start n (by omega)]
      by_cases hdone : min ms.toNat 10000 ≤ e + d
      · -- this is the reading
        have hfirst : elapsed (d :: ds) 1 = d := by rw [elapsed_cons]; rfl
        rw [if_pos hdone, firstElapsed_one ds (by omega), Option.some.injEq, Exit.mk.injEq]
        constructor
        · rintro ⟨hk, rfl⟩
          obtain rfl : k = 1 := by omega
          exact ⟨rfl, by rw [hfirst]⟩
        · rintro ⟨rfl, rfl⟩
          exact ⟨rfl, by rw [hfirst]⟩
      · rw [if_neg hdone]
        cases k with
        | zero =>
            refine iff_of_false (fun h => ?_) fun h => absurd h.1.1 (Nat.lt_irrefl 0)
            exact absurd (lt_readings h) (by simp)
        | succ k =>
            -- the failsafe has not come yet, and the rest is waited for from here
            have hrest := ih (n + 1) hds.2 (show e + d < 10000 by omega) k
            rw [firstElapsed_cons ds k (by omega), elapsed_cons, Nat.sub_sub, ← Nat.add_assoc e,
              ← hrest, Nat.add_right_comm, Nat.add_assoc n k 1]

/-- **`pit_delay`**, for every time that is asked for, every start of the counter and every sequence
of readings less than `2 ^ 31` ticks apart: it returns at the first reading where that time or ten
thousand ticks have elapsed, and it warns if the time has not. -/
theorem pitDelay_returns (ms start : UInt32) {ds : List Nat} (hds : ∀ d ∈ ds, d < 2 ^ 31) (k : Nat)
    (w : Bool) :
    pitDelay ms (start :: readings start ds) = some ⟨k, w⟩ ↔
      FirstElapsed ds (min ms.toNat 10000) k ∧ w = decide (elapsed ds k < ms.toNat) := by
  have h := delayLoop_eq ms start 0 hds (show 0 < 10000 by decide) k w
  rw [show UInt32.ofNat 0 = 0 from rfl, UInt32.add_zero, Nat.zero_add, Nat.sub_zero,
    Nat.zero_add] at h
  exact h

/-- Five ticks, across the end of the counter. -/
theorem pitDelay_returns_wrap :
    pitDelay 5 (0xFFFFFFFE :: readings 0xFFFFFFFE [3, 3]) = some ⟨2, false⟩ :=
  (pitDelay_returns 5 0xFFFFFFFE (by decide) 2 false).mpr
    ⟨⟨by decide, by decide, by decide, fun j h0 h2 => by
      obtain rfl : j = 1 := by omega
      decide⟩, by decide⟩

/-- Eleven seconds that end after ten. -/
theorem not_pitDelay : ∃ ds : List Nat, (∀ d ∈ ds, d < 2 ^ 31) ∧
    pitDelay 11000 (0 :: readings 0 ds) = some ⟨1, true⟩ ∧ elapsed ds 1 < 11000 := by
  refine ⟨[10000], by decide, ?_, by decide⟩
  rw [readings, timerIrqHandler_iterate]
  decide

end MicroKernel.Time
