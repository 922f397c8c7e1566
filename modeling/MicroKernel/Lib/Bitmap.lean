import Mathlib.Data.BitVec
import Mathlib.Tactic

set_option autoImplicit false

/-! # Bitmaps

A bitmap is an array of 32-bit words; bit `k` of it is bit `k % 32` of word `k / 32`. The search
for a clear bit looks at one word after the other and skips the words that are all ones.

The lemmas say what `set` and `clear` do to every bit, and what the search finds; no proof that
uses this file looks at a word.
-/

namespace MicroKernel.Lib

/-- The words of a bitmap. -/
abbrev Bitmap := Nat → BitVec 32

namespace Bitmap

/-- Bit `k`. -/
def test (m : Bitmap) (k : Nat) : Bool := (m (k / 32)).getLsbD (k % 32)

/-- Set bit `k`. -/
def set (m : Bitmap) (k : Nat) : Bitmap :=
  Function.update m (k / 32) (m (k / 32) ||| BitVec.twoPow 32 (k % 32))

/-- Clear bit `k`. -/
def clear (m : Bitmap) (k : Nat) : Bitmap :=
  Function.update m (k / 32) (m (k / 32) &&& ~~~ BitVec.twoPow 32 (k % 32))

/-- The first clear bit of a word, among the `n` bits from `bit` on. -/
def firstClearBit (w : BitVec 32) : Nat → Nat → Option Nat
  | 0, _ => none
  | n + 1, bit =>
      if w &&& BitVec.twoPow 32 bit = 0 then some bit else firstClearBit w n (bit + 1)

/-- The first clear bit of a bitmap, among the `n` words from word `i` on. -/
def firstClear (m : Bitmap) : Nat → Nat → Option Nat
  | 0, _ => none
  | n + 1, i =>
      if m i = 0xFFFFFFFF then firstClear m n (i + 1)
      else match firstClearBit (m i) 32 0 with
        | some bit => some (i * 32 + bit)
        | none => firstClear m n (i + 1)

/-! ## Single bits -/

theorem test_set (m : Bitmap) (k j : Nat) : (m.set k).test j = (decide (j = k) || m.test j) := by
  unfold test set
  by_cases hw : j / 32 = k / 32
  · have hlt : j % 32 < 32 := Nat.mod_lt j (by decide)
    have hlt' : k % 32 < 32 := Nat.mod_lt k (by decide)
    have hiff : decide (k % 32 = j % 32) = decide (j = k) := by
      rw [decide_eq_decide]
      omega
    rw [hw, Function.update_self, BitVec.getLsbD_or, BitVec.getLsbD_twoPow, hiff, ← hw]
    simp [hlt, hlt', Bool.or_comm]
  · have hne : decide (j = k) = false := by
      rw [decide_eq_false_iff_not]
      rintro rfl
      exact hw rfl
    rw [Function.update_of_ne hw, hne, Bool.false_or]

theorem test_clear (m : Bitmap) (k j : Nat) :
    (m.clear k).test j = (!decide (j = k) && m.test j) := by
  unfold test clear
  by_cases hw : j / 32 = k / 32
  · have hlt : j % 32 < 32 := Nat.mod_lt j (by decide)
    have hlt' : k % 32 < 32 := Nat.mod_lt k (by decide)
    have hiff : decide (k % 32 = j % 32) = decide (j = k) := by
      rw [decide_eq_decide]
      omega
    rw [hw, Function.update_self, BitVec.getLsbD_and, BitVec.getLsbD_not, BitVec.getLsbD_twoPow,
      hiff, ← hw]
    simp [hlt, hlt', Bool.and_comm]
  · have hne : decide (j = k) = false := by
      rw [decide_eq_false_iff_not]
      rintro rfl
      exact hw rfl
    rw [Function.update_of_ne hw, hne, Bool.not_false, Bool.true_and]

theorem ext {m m' : Bitmap} (h : ∀ k, m.test k = m'.test k) : m = m' := by
  funext i
  refine BitVec.eq_of_getLsbD_eq fun j hj => ?_
  have hk := h (i * 32 + j)
  unfold test at hk
  rwa [show (i * 32 + j) / 32 = i by omega, show (i * 32 + j) % 32 = j by omega] at hk

/-! ## The search -/

theorem and_twoPow_eq_zero (w : BitVec 32) {bit : Nat} (h : bit < 32) :
    w &&& BitVec.twoPow 32 bit = 0 ↔ w.getLsbD bit = false := by
  rw [BitVec.and_twoPow]
  cases w.getLsbD bit with
  | false => simp
  | true =>
      have hne : BitVec.twoPow 32 bit ≠ 0#32 := by
        intro h0
        have hbit := congrArg (fun x => BitVec.getLsbD x bit) h0
        simp [h] at hbit
      simpa using hne

theorem firstClearBit_spec (w : BitVec 32) (n bit : Nat) (h : bit + n ≤ 32) :
    (∀ k, firstClearBit w n bit = some k →
      bit ≤ k ∧ k < bit + n ∧ w.getLsbD k = false ∧ ∀ j, bit ≤ j → j < k → w.getLsbD j = true) ∧
    (firstClearBit w n bit = none → ∀ j, bit ≤ j → j < bit + n → w.getLsbD j = true) := by
  induction n generalizing bit with
  | zero => exact ⟨fun k hk => (by cases hk), fun _ j h1 h2 => (by omega)⟩
  | succ n ih =>
      obtain ⟨ih1, ih2⟩ := ih (bit + 1) (by omega)
      unfold firstClearBit
      by_cases hb : w &&& BitVec.twoPow 32 bit = 0
      · rw [if_pos hb]
        rw [and_twoPow_eq_zero w (by omega)] at hb
        refine ⟨fun k hk => ?_, fun hn => by cases hn⟩
        cases hk
        exact ⟨Nat.le_refl _, by omega, hb, fun j h1 h2 => by omega⟩
      · rw [if_neg hb]
        rw [and_twoPow_eq_zero w (by omega), Bool.not_eq_false] at hb
        have hset : ∀ j, bit ≤ j → (bit + 1 ≤ j → w.getLsbD j = true) → w.getLsbD j = true := by
          intro j h1 h2
          rcases Nat.eq_or_lt_of_le h1 with rfl | hlt
          · exact hb
          · exact h2 hlt
        refine ⟨fun k hk => ?_, fun hn j h1 h2 => ?_⟩
        · obtain ⟨h1, h2, h3, h4⟩ := ih1 k hk
          exact ⟨by omega, by omega, h3, fun j h5 h6 => hset j h5 fun h7 => h4 j h7 h6⟩
        · exact hset j h1 fun h3 => ih2 hn j h3 (by omega)

/-- **What the search finds**: the first clear bit of the words, or none when all are set. -/
theorem firstClear_spec (m : Bitmap) (n i : Nat) :
    (∀ k, m.firstClear n i = some k →
      i * 32 ≤ k ∧ k < (i + n) * 32 ∧ m.test k = false ∧
        ∀ j, i * 32 ≤ j → j < k → m.test j = true) ∧
    (m.firstClear n i = none → ∀ j, i * 32 ≤ j → j < (i + n) * 32 → m.test j = true) := by
  induction n generalizing i with
  | zero => exact ⟨fun k hk => (by cases hk), fun _ j h1 h2 => (by omega)⟩
  | succ n ih =>
      obtain ⟨ih1, ih2⟩ := ih (i + 1)
      -- a bit of word `i`, or one behind it
      have hcases : ∀ j, i * 32 ≤ j → (i + 1) * 32 ≤ j ∨ j / 32 = i := fun j hj => by omega
      -- when word `i` is all ones the search goes on behind it
      have hskip : (∀ b, b < 32 → (m i).getLsbD b = true) →
          m.firstClear (n + 1) i = m.firstClear n (i + 1) →
          (∀ k, m.firstClear (n + 1) i = some k →
            i * 32 ≤ k ∧ k < (i + (n + 1)) * 32 ∧ m.test k = false ∧
              ∀ j, i * 32 ≤ j → j < k → m.test j = true) ∧
          (m.firstClear (n + 1) i = none →
            ∀ j, i * 32 ≤ j → j < (i + (n + 1)) * 32 → m.test j = true) := by
        intro hones heq
        have hword : ∀ j, j / 32 = i → m.test j = true := by
          rintro j rfl
          exact hones _ (Nat.mod_lt j (by decide))
        rw [heq]
        refine ⟨fun k hk => ?_, fun hn j h1 h2 => ?_⟩
        · obtain ⟨h1, h2, h3, h4⟩ := ih1 k hk
          refine ⟨by omega, by omega, h3, fun j h5 h6 => ?_⟩
          exact (hcases j h5).elim (fun h7 => h4 j h7 h6) (hword j)
        · exact (hcases j h1).elim (fun h7 => ih2 hn j h7 (by omega)) (hword j)
      by_cases hall : m i = 0xFFFFFFFF
      · refine hskip (fun b hb => ?_) ?_
        · rw [hall]
          interval_cases b <;> rfl
        · rw [firstClear, if_pos hall]
      · obtain ⟨hb1, hb2⟩ := firstClearBit_spec (m i) 32 0 (by omega)
        cases hbit : firstClearBit (m i) 32 0 with
        | none =>
            refine hskip (fun b hb => hb2 hbit b (by omega) (by omega)) ?_
            rw [firstClear, if_neg hall, hbit]
        | some bit =>
            obtain ⟨-, h2, h3, h4⟩ := hb1 bit hbit
            have heq : m.firstClear (n + 1) i = some (i * 32 + bit) := by
              rw [firstClear, if_neg hall, hbit]
            rw [heq]
            refine ⟨fun k hk => ?_, fun hn => by cases hn⟩
            cases hk
            refine ⟨by omega, by omega, ?_, fun j h5 h6 => ?_⟩
            · unfold test
              rwa [show (i * 32 + bit) / 32 = i by omega, show (i * 32 + bit) % 32 = bit by omega]
            · have hj : j / 32 = i := by omega
              unfold test
              rw [hj]
              exact h4 (j % 32) (by omega) (by omega)

end Bitmap

end MicroKernel.Lib
