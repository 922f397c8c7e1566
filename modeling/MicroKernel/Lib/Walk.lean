import Mathlib.Data.Finset.Card
import Mathlib.Tactic

set_option autoImplicit false

/-! # Walks along a partial function

`walk next n a` is the node that `n` steps of `next` lead to from `a`, or `none` when the walk has
stopped before. A walk over finitely many nodes stops exactly when it never comes back to a node
(`stops_iff_not_repeats`), and then after as many steps as there are nodes. A set of nodes of the
walk that no step leaves is the set of all of them (`mem_iff_comesTo`).
-/

namespace MicroKernel.Lib

variable {α : Type}

/-- The node after `n` steps from `a`. -/
def walk (next : α → Option α) : Nat → α → Option α
  | 0, a => some a
  | n + 1, a => (next a).bind (walk next n)

/-- The walk from `a` comes back to a node. -/
def Repeats (next : α → Option α) (a : α) : Prop :=
  ∃ i j b, i < j ∧ walk next i a = some b ∧ walk next j a = some b

variable {next : α → Option α} {a : α}

theorem walk_add (i j : Nat) : walk next (i + j) a = (walk next i a).bind (walk next j) := by
  induction i generalizing a with
  | zero => rw [Nat.zero_add, walk, Option.bind_some]
  | succ i ih =>
      rw [Nat.add_right_comm, walk, walk]
      cases next a with
      | none => rfl
      | some b => exact ih

theorem walk_eq_none_of_le {i j : Nat} (h : walk next i a = none) (hij : i ≤ j) :
    walk next j a = none := by
  obtain ⟨k, rfl⟩ := Nat.exists_eq_add_of_le hij
  rw [walk_add, h, Option.bind_none]

/-- A walk that repeats goes round and round. -/
theorem Repeats.walk_ne_none (h : Repeats next a) (n : Nat) : walk next n a ≠ none := by
  obtain ⟨i, j, b, hij, hi, hj⟩ := h
  obtain ⟨p, rfl⟩ := Nat.exists_eq_add_of_lt hij
  have hround : walk next (p + 1) b = some b := by
    calc walk next (p + 1) b = (walk next i a).bind (walk next (p + 1)) := by
          rw [hi, Option.bind_some]
      _ = walk next (i + p + 1) a := (walk_add i (p + 1)).symm
      _ = some b := hj
  have hrounds : ∀ k, walk next (k * (p + 1)) b = some b := by
    intro k
    induction k with
    | zero => rw [Nat.zero_mul, walk]
    | succ k ih => rw [Nat.succ_mul, walk_add, ih, Option.bind_some, hround]
  intro hn
  have hfar : walk next (i + n * (p + 1)) a = none := by
    apply walk_eq_none_of_le hn
    calc n ≤ n * (p + 1) := Nat.le_mul_of_pos_right n (Nat.succ_pos p)
      _ ≤ i + n * (p + 1) := Nat.le_add_left _ _
  rw [walk_add, hi, Option.bind_some, hrounds] at hfar
  cases hfar

/-- With all nodes after the first one in a finite set, a walk that goes on for more steps than the
set has elements repeats. -/
theorem walk_eq_none_of_not_repeats (t : Finset α) (ht : ∀ b c, next b = some c → c ∈ t)
    (h : ¬ Repeats next a) : walk next (t.card + 1) a = none := by
  by_contra hne
  have hsome : ∀ i, i ≤ t.card + 1 → ∃ b, walk next i a = some b := by
    intro i hi
    apply Option.ne_none_iff_exists'.mp
    exact fun hn => hne (walk_eq_none_of_le hn hi)
  -- the nodes after 1, …, `t.card + 1` steps
  have hmem : ∀ i, i < t.card + 1 → (walk next (i + 1) a).getD a ∈ t := by
    intro i hi
    obtain ⟨b, hb⟩ := hsome i (by omega)
    obtain ⟨c, hc⟩ := hsome (i + 1) (by omega)
    rw [hc, Option.getD_some]
    rw [walk_add, hb, Option.bind_some, walk] at hc
    obtain ⟨c', hc', hcc⟩ := Option.bind_eq_some_iff.mp hc
    obtain rfl := Option.some.inj hcc
    exact ht b c' hc'
  obtain ⟨i, hi, j, hj, hij, heq⟩ := Finset.exists_ne_map_eq_of_card_lt_of_maps_to
    (show t.card < (Finset.range (t.card + 1)).card by simp)
    fun i hi => hmem i (Finset.mem_range.mp hi)
  rw [Finset.mem_range] at hi hj
  have hsame : walk next (i + 1) a = walk next (j + 1) a := by
    obtain ⟨b, hb⟩ := hsome (i + 1) (by omega)
    obtain ⟨c, hc⟩ := hsome (j + 1) (by omega)
    rw [hb, hc, Option.getD_some, Option.getD_some] at heq
    rw [hb, hc, heq]
  obtain ⟨b, hb⟩ := hsome (i + 1) (by omega)
  rcases Nat.lt_or_gt_of_ne hij with hlt | hlt
  · exact h ⟨i + 1, j + 1, b, by omega, hb, hsame ▸ hb⟩
  · exact h ⟨j + 1, i + 1, b, by omega, hsame ▸ hb, hb⟩

/-- A walk over finitely many nodes has stopped after enough steps exactly when it does not
repeat. -/
theorem stops_iff_not_repeats (t : Finset α) (ht : ∀ b c, next b = some c → c ∈ t) {n : Nat}
    (hn : t.card < n) : walk next n a = none ↔ ¬ Repeats next a := by
  constructor
  · exact fun h hr => hr.walk_ne_none n h
  · exact fun h => walk_eq_none_of_le (walk_eq_none_of_not_repeats t ht h) (by omega)

theorem not_repeats_of_walk_eq_none {n : Nat} (h : walk next n a = none) : ¬ Repeats next a :=
  fun hr => hr.walk_ne_none n h

/-! ## The nodes of a walk -/

/-- The walk from `a` comes to `b`. -/
def ComesTo (next : α → Option α) (a b : α) : Prop := ∃ n, walk next n a = some b

variable {b c : α}

theorem comesTo_refl (next : α → Option α) (a : α) : ComesTo next a a := ⟨0, rfl⟩

theorem ComesTo.step (h : ComesTo next a b) (hb : next b = some c) : ComesTo next a c := by
  obtain ⟨n, hn⟩ := h
  refine ⟨n + 1, ?_⟩
  rw [walk_add, hn, Option.bind_some, walk, hb, Option.bind_some, walk]

/-- A set that no step leaves holds the whole walk from a node in it. -/
theorem ComesTo.mem {t : Finset α} (h : ComesTo next a b) (ha : a ∈ t)
    (ht : ∀ x y, x ∈ t → next x = some y → y ∈ t) : b ∈ t := by
  obtain ⟨n, hn⟩ := h
  induction n generalizing a with
  | zero =>
      obtain rfl := Option.some.inj hn
      exact ha
  | succ n ih =>
      obtain ⟨y, hy, hrest⟩ := Option.bind_eq_some_iff.mp hn
      exact ih (ht a y ha hy) hrest

/-- A set of nodes of the walk that no step leaves. -/
theorem mem_iff_comesTo {t : Finset α} (ha : a ∈ t) (ht : ∀ x y, x ∈ t → next x = some y → y ∈ t)
    (hcomes : ∀ x, x ∈ t → ComesTo next a x) : b ∈ t ↔ ComesTo next a b :=
  ⟨hcomes b, fun h => h.mem ha ht⟩

end MicroKernel.Lib
