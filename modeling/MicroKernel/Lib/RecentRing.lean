import Mathlib.Tactic

set_option autoImplicit false

/-! # The last entries in a ring

A ring of `n` slots into which entries are written one behind the other, the oldest one being
overwritten when there is no other slot. `i` is the slot to write next, and `back n i k` that of the
entry with `k` newer ones. `Recent rel slots i xs` says that the slots hold the entries `xs`, the
newest first; `rel` says how a slot holds an entry.
-/

namespace MicroKernel.Lib.RecentRing

/-- The slot of the entry with `k` newer ones. -/
def back (n i k : Nat) : Nat := (i + n - 1 - k) % n

section back

variable {n i k k' : Nat}

theorem back_lt (hn : 0 < n) (i k : Nat) : back n i k < n := Nat.mod_lt _ hn

/-- The remainder of a number below `2 n`. -/
theorem mod_of_lt_double {a : Nat} (h : a < 2 * n) : a % n = if a < n then a else a - n := by
  split
  · next hlt => exact Nat.mod_eq_of_lt hlt
  · rw [Nat.mod_eq_sub_mod (by omega)]
    exact Nat.mod_eq_of_lt (by omega)

theorem back_eq (hi : i < n) (k : Nat) :
    back n i k = if i + n - 1 - k < n then i + n - 1 - k else i + n - 1 - k - n :=
  mod_of_lt_double (by omega)

theorem back_inj (hi : i < n) (hk : k < n) (hk' : k' < n) : back n i k = back n i k' ↔ k = k' := by
  rw [back_eq hi, back_eq hi]
  split <;> split <;> omega

/-- One entry older. -/
theorem back_succ (hi : i < n) (hk : k + 1 < n) : (back n i k + n - 1) % n = back n i (k + 1) := by
  rw [mod_of_lt_double (by have := back_lt (Nat.zero_lt_of_lt hi) i k; omega), back_eq hi, back_eq hi]
  split <;> split <;> split <;> omega

/-- One entry newer. -/
theorem back_pred (hi : i < n) (hk : k + 1 < n) : (back n i (k + 1) + 1) % n = back n i k := by
  rw [mod_of_lt_double (by have := back_lt (Nat.zero_lt_of_lt hi) i (k + 1); omega), back_eq hi,
    back_eq hi]
  split <;> split <;> split <;> omega

/-- The newest entry. -/
theorem back_zero (n i : Nat) : (i + n - 1) % n = back n i 0 := by
  rw [back, Nat.sub_zero]

/-- The oldest of `c` entries. -/
theorem back_oldest {c : Nat} (hc : 0 < c) (hle : c ≤ n) :
    (i + n - c) % n = back n i (c - 1) := by
  unfold back
  congr 1
  omega

/-- The slot that has just been written. -/
theorem back_next_zero (hi : i < n) : back n ((i + 1) % n) 0 = i := by
  have hlt : (i + 1) % n < n := Nat.mod_lt _ (Nat.zero_lt_of_lt hi)
  rw [back_eq hlt, mod_of_lt_double (by omega)]
  split <;> split <;> omega

/-- After a write every entry has one more that is newer. -/
theorem back_next_succ (hi : i < n) (hk : k + 1 < n) : back n ((i + 1) % n) (k + 1) = back n i k := by
  have hlt : (i + 1) % n < n := Nat.mod_lt _ (Nat.zero_lt_of_lt hi)
  rw [back_eq hlt, back_eq hi, mod_of_lt_double (by omega)]
  split <;> split <;> split <;> omega

end back

variable {α β : Type} {rel : α → β → Prop} {slots : List α} {i : Nat} {xs : List β}

/-- The slots hold the entries `xs`, the newest first. -/
structure Recent (rel : α → β → Prop) (slots : List α) (i : Nat) (xs : List β) : Prop where
  index_lt : i < slots.length
  length_le : xs.length ≤ slots.length
  held : ∀ k x, xs[k]? = some x → ∃ a, slots[back slots.length i k]? = some a ∧ rel a x

theorem Recent.nil (hi : i < slots.length) : Recent rel slots i [] :=
  ⟨hi, Nat.zero_le _, fun k x h => by cases h⟩

/-- **A write**: the entry is the newest one, and there are never more than there are slots. -/
theorem Recent.push (h : Recent rel slots i xs) {a : α} {x : β} (ha : rel a x) :
    Recent rel (slots.set i a) ((i + 1) % slots.length) ((x :: xs).take slots.length) where
  index_lt := by
    rw [List.length_set]
    exact Nat.mod_lt _ (Nat.zero_lt_of_lt h.index_lt)
  length_le := by
    rw [List.length_set]
    exact List.length_take_le _ _
  held := by
    intro k y hy
    have hk : k < slots.length :=
      Nat.lt_of_lt_of_le (List.getElem?_eq_some_iff.mp hy).1 (List.length_take_le _ _)
    rw [List.getElem?_take_of_lt hk] at hy
    rw [List.length_set]
    cases k with
    | zero =>
        obtain rfl := Option.some.inj hy
        exact ⟨a, by rw [back_next_zero h.index_lt, List.getElem?_set_self h.index_lt], ha⟩
    | succ k =>
        obtain ⟨b, hb, hrel⟩ := h.held k y hy
        have hne : i ≠ back slots.length i k := by
          rw [back_eq h.index_lt]
          split <;> omega
        exact ⟨b, by rw [back_next_succ h.index_lt hk, List.getElem?_set_ne hne, hb], hrel⟩

end MicroKernel.Lib.RecentRing
