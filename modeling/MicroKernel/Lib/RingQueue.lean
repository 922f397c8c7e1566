import Mathlib.Data.List.Infix
import Mathlib.Logic.Function.Basic
import Mathlib.Tactic

set_option autoImplicit false

/-! # Bounded queues in a ring

A ring of `n` slots with the index of the next element to read and that of the next slot to write.
The queue is empty when the two are equal, and full one element before they would be equal again,
so it holds at most `n - 1` elements. `toList` lists them, the next one to read first; `push` appends
to it and `pop` takes its head.
-/

namespace MicroKernel.Lib

/-- A ring of `n` slots. -/
structure RingQueue (α : Type) (n : Nat) where
  slots : Nat → α
  head : Nat
  tail : Nat
  head_lt : head < n
  tail_lt : tail < n

namespace RingQueue

variable {α : Type} {n : Nat}

/-- The index behind `i`. -/
def next (n i : Nat) : Nat := (i + 1) % n

/-- The number of elements. -/
def count (r : RingQueue α n) : Nat := (r.tail + n - r.head) % n

/-- The elements, the next one to read first. -/
def toList (r : RingQueue α n) : List α := (List.range r.count).map fun i => r.slots ((r.head + i) % n)

/-- Write an element to the tail. -/
def push (r : RingQueue α n) (x : α) : Option (RingQueue α n) :=
  if next n r.tail = r.head then none
  else some { r with
    slots := Function.update r.slots r.tail x
    tail := next n r.tail
    tail_lt := Nat.mod_lt _ (Nat.zero_lt_of_lt r.tail_lt) }

/-- Read the element at the head. -/
def pop (r : RingQueue α n) : Option (α × RingQueue α n) :=
  if r.head = r.tail then none
  else some (r.slots r.head, { r with
    head := next n r.head
    head_lt := Nat.mod_lt _ (Nat.zero_lt_of_lt r.tail_lt) })

/-! ## Indices -/

theorem next_eq {i : Nat} (h : i < n) : next n i = if i + 1 = n then 0 else i + 1 := by
  unfold next
  split
  · next heq => rw [heq, Nat.mod_self]
  · exact Nat.mod_eq_of_lt (by omega)

/-- The two orders of head and tail. -/
theorem count_eq (r : RingQueue α n) :
    r.count = if r.head ≤ r.tail then r.tail - r.head else r.tail + n - r.head := by
  have h1 := r.head_lt
  have h2 := r.tail_lt
  unfold count
  split
  · rw [show r.tail + n - r.head = r.tail - r.head + n by omega, Nat.add_mod_right]
    exact Nat.mod_eq_of_lt (by omega)
  · exact Nat.mod_eq_of_lt (by omega)

@[simp] theorem length_toList (r : RingQueue α n) : r.toList.length = r.count := by simp [toList]

theorem count_lt (r : RingQueue α n) : r.count < n := Nat.mod_lt _ (Nat.zero_lt_of_lt r.tail_lt)

/-- The slot of the tail is behind the elements. -/
theorem index_eq_tail_iff (r : RingQueue α n) {i : Nat} (hi : i ≤ r.count) :
    (r.head + i) % n = r.tail ↔ i = r.count := by
  have h1 := r.head_lt
  have h2 := r.tail_lt
  have hmod : (r.head + i) % n = if r.head + i < n then r.head + i else r.head + i - n := by
    have hlt := r.count_lt
    split
    · exact Nat.mod_eq_of_lt ‹_›
    · rw [Nat.mod_eq_sub_mod (by omega)]
      exact Nat.mod_eq_of_lt (by omega)
  rw [hmod]
  rw [count_eq] at hi ⊢
  split at hi <;> split <;> omega

/-- Different elements are in different slots. -/
theorem index_ne_head (r : RingQueue α n) {i : Nat} (h0 : 0 < i) (hi : i < n) :
    (r.head + i) % n ≠ r.head := by
  have h1 := r.head_lt
  by_cases hlt : r.head + i < n
  · rw [Nat.mod_eq_of_lt hlt]
    omega
  · rw [Nat.mod_eq_sub_mod (by omega), Nat.mod_eq_of_lt (by omega)]
    omega

theorem toList_eq_nil {r : RingQueue α n} : r.toList = [] ↔ r.head = r.tail := by
  have h1 := r.head_lt
  have h2 := r.tail_lt
  rw [← List.length_eq_zero_iff, length_toList, count_eq]
  split <;> omega

/-- Writing to the slot of the tail changes no element. -/
theorem toList_congr_tail {r r' : RingQueue α n} (hhead : r'.head = r.head) (htail : r'.tail = r.tail)
    (hslots : ∀ i, i ≠ r.tail → r'.slots i = r.slots i) : r'.toList = r.toList := by
  have hcount : r'.count = r.count := by
    unfold count
    rw [hhead, htail]
  unfold toList
  rw [hcount, hhead]
  apply List.map_congr_left
  intro i hi
  rw [List.mem_range] at hi
  exact hslots _ fun heq => hi.ne ((r.index_eq_tail_iff hi.le).mp heq)

/-- What is read of the elements stays, if what is read of the slots does. -/
theorem map_toList_congr {β : Type} {r r' : RingQueue α n} {f : α → β} (hhead : r'.head = r.head)
    (htail : r'.tail = r.tail) (hslots : ∀ i, f (r'.slots i) = f (r.slots i)) :
    r'.toList.map f = r.toList.map f := by
  unfold toList count
  rw [hhead, htail, List.map_map, List.map_map]
  apply List.map_congr_left
  intro i _
  exact hslots _

/-! ## Pushing and popping -/

theorem push_eq_none {r : RingQueue α n} {x : α} : r.push x = none ↔ r.toList.length = n - 1 := by
  have h1 := r.head_lt
  have h2 := r.tail_lt
  have hfull : r.push x = none ↔ next n r.tail = r.head := by
    unfold push
    split <;> simp [*]
  rw [hfull, length_toList, count_eq, next_eq h2]
  split <;> split <;> omega

theorem push_eq_some {r r' : RingQueue α n} {x : α} (h : r.push x = some r') :
    r'.slots = Function.update r.slots r.tail x ∧ r'.head = r.head ∧ r'.tail = next n r.tail ∧
      r'.count = r.count + 1 := by
  have h1 := r.head_lt
  have h2 := r.tail_lt
  unfold push at h
  split at h
  · cases h
  next hfull =>
  cases h
  refine ⟨rfl, rfl, rfl, ?_⟩
  rw [next_eq h2] at hfull
  rw [count_eq, count_eq]
  simp only [next_eq h2]
  split at hfull <;> split <;> split <;> split <;> omega

/-- **A push appends**. -/
theorem toList_push {r r' : RingQueue α n} {x : α} (h : r.push x = some r') :
    r'.toList = r.toList ++ [x] := by
  obtain ⟨hslots, hhead, -, hcount⟩ := push_eq_some h
  unfold toList
  rw [hcount, hslots, hhead, List.range_succ, List.map_append, List.map_singleton]
  congr 1
  · apply List.map_congr_left
    intro i hi
    rw [List.mem_range] at hi
    exact Function.update_of_ne (fun heq => hi.ne ((r.index_eq_tail_iff hi.le).mp heq)) _ _
  · rw [(r.index_eq_tail_iff (Nat.le_refl _)).mpr rfl, Function.update_self]

theorem pop_eq_none {r : RingQueue α n} : r.pop = none ↔ r.toList = [] := by
  rw [toList_eq_nil]
  unfold pop
  split <;> simp [*]

theorem pop_eq_some {r r' : RingQueue α n} {x : α} (h : r.pop = some (x, r')) :
    x = r.slots r.head ∧ r'.slots = r.slots ∧ r'.head = next n r.head ∧ r'.tail = r.tail ∧
      r.count = r'.count + 1 := by
  have h1 := r.head_lt
  have h2 := r.tail_lt
  unfold pop at h
  split at h
  · cases h
  next hne =>
  cases h
  refine ⟨rfl, rfl, rfl, rfl, ?_⟩
  rw [count_eq, count_eq]
  simp only [next_eq h1]
  split <;> split <;> split <;> omega

/-- The elements behind the one that was popped. -/
theorem index_pop {r r' : RingQueue α n} {x : α} (h : r.pop = some (x, r')) (i : Nat) :
    (r'.head + i) % n = (r.head + (i + 1)) % n := by
  obtain ⟨-, -, hhead, -⟩ := pop_eq_some h
  rw [hhead, next, Nat.mod_add_mod, Nat.add_assoc, Nat.add_comm 1 i]

/-- **A pop takes the head**. -/
theorem toList_pop {r r' : RingQueue α n} {x : α} (h : r.pop = some (x, r')) :
    r.toList = x :: r'.toList := by
  obtain ⟨hx, hslots, -, -, hcount⟩ := pop_eq_some h
  unfold toList
  rw [hcount, List.range_succ_eq_map, List.map_cons, List.map_map, Nat.add_zero,
    Nat.mod_eq_of_lt r.head_lt, hx]
  congr 1
  apply List.map_congr_left
  intro i _
  rw [hslots, index_pop h, Function.comp_apply]

theorem head_ne_tail_of_pos {r : RingQueue α n} (h : 0 < r.count) : r.head ≠ r.tail := by
  intro heq
  rw [count_eq] at h
  simp [heq] at h

theorem pop_of_pos {r : RingQueue α n} (h : 0 < r.count) : ∃ r', r.pop = some (r.slots r.head, r') := by
  unfold pop
  rw [if_neg (head_ne_tail_of_pos h)]
  exact ⟨_, rfl⟩

/-! ## Rings in memory

A ring whose elements are written down somewhere else: `Holds i x` says that the place of slot `i`
holds `x`. While an element is taken off, its place may already be in use for something else. -/

section held

variable {r r' : RingQueue α n} {Holds Holds' : Nat → α → Prop} {k₀ : Nat} {x : α}

/-- The places of the elements from number `k₀` on hold them. -/
def HeldFrom (r : RingQueue α n) (Holds : Nat → α → Prop) (k₀ : Nat) : Prop :=
  ∀ k, k₀ ≤ k → k < r.count → Holds ((r.head + k) % n) (r.slots ((r.head + k) % n))

theorem HeldFrom.head (h : r.HeldFrom Holds 0) (hpos : 0 < r.count) :
    Holds r.head (r.slots r.head) := by
  have hhead := h 0 (Nat.le_refl _) hpos
  rwa [Nat.add_zero, Nat.mod_eq_of_lt r.head_lt] at hhead

/-- Writing to the place of the tail disturbs no element. -/
theorem HeldFrom.congr_tail (h : r.HeldFrom Holds k₀)
    (hsame : ∀ i y, i ≠ r.tail → Holds i y → Holds' i y) : r.HeldFrom Holds' k₀ :=
  fun k hk hlt => hsame _ _ (fun heq => hlt.ne ((r.index_eq_tail_iff hlt.le).mp heq)) (h k hk hlt)

/-- Writing to the place of the head disturbs no other element. -/
theorem HeldFrom.congr_head (h : r.HeldFrom Holds k₀)
    (hsame : ∀ i y, i ≠ r.head → Holds i y → Holds' i y) : r.HeldFrom Holds' (k₀ + 1) := by
  intro k hk hlt
  have hcount := r.count_lt
  exact hsame _ _ (r.index_ne_head (by omega) (by omega)) (h k (by omega) hlt)

/-- Neither does it disturb them while the first element is taken off. -/
theorem HeldFrom.congr_behind (h : r.HeldFrom Holds (k₀ + 1))
    (hsame : ∀ i y, i ≠ r.head → Holds i y → Holds' i y) : r.HeldFrom Holds' (k₀ + 1) := by
  intro k hk hlt
  have hcount := r.count_lt
  exact hsame _ _ (r.index_ne_head (by omega) (by omega)) (h k hk hlt)

theorem HeldFrom.push (h : r.HeldFrom Holds k₀) (hr : r.push x = some r')
    (hx : Holds r.tail x) : r'.HeldFrom Holds k₀ := by
  obtain ⟨hslots, hhead, -, hcount⟩ := push_eq_some hr
  intro k hk hlt
  rw [hslots, hhead]
  rcases Nat.lt_succ_iff_lt_or_eq.mp (hcount ▸ hlt) with hlt' | rfl
  · rw [Function.update_of_ne fun heq => hlt'.ne ((r.index_eq_tail_iff hlt'.le).mp heq)]
    exact h k hk hlt'
  · rw [(r.index_eq_tail_iff (Nat.le_refl _)).mpr rfl, Function.update_self]
    exact hx

theorem HeldFrom.pop (h : r.HeldFrom Holds (k₀ + 1)) (hr : r.pop = some (x, r')) :
    r'.HeldFrom Holds k₀ := by
  obtain ⟨-, hslots, -, -, hcount⟩ := pop_eq_some hr
  intro k hk hlt
  rw [hslots, index_pop hr]
  exact h (k + 1) (by omega) (by omega)

end held

end RingQueue

end MicroKernel.Lib
