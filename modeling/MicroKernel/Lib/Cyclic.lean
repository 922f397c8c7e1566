import Mathlib.Data.List.Rotate
import Mathlib.Tactic

set_option autoImplicit false

/-! # Round robin

The numbers below `n` in cyclic order. A search that starts behind `c` and goes round finds the
first number that has the property `p`, and finds none exactly when there is none
(`search_eq_head?`).

`order p n c` lists the numbers with the property in the order in which they come behind `c`. The
next one is its head, and behind that one the order is the same list with its head moved to the end
(`order_next`). So a sequence of searches, each of which starts at what the one before it found,
goes through the whole list before it finds a number again (`Follows.eq_order`).
-/

namespace MicroKernel.Lib.Cyclic

/-- One turn behind `c`. -/
def turn (n c : Nat) : List Nat := (List.range n).map fun i => (c + 1 + i) % n

/-- The numbers with the property `p`, in the order in which they come behind `c`. -/
def order (p : Nat → Bool) (n c : Nat) : List Nat := (turn n c).filter p

/-- The first number with the property among the `k` that come behind `c`. -/
def search (p : Nat → Bool) (n : Nat) : Nat → Nat → Option Nat
  | 0, _ => none
  | k + 1, c => if p ((c + 1) % n) then some ((c + 1) % n) else search p n k ((c + 1) % n)

/-- Every number of the list comes next behind the one before it, and the first one behind `c`. -/
def Follows (p : Nat → Bool) (n : Nat) : Nat → List Nat → Prop
  | _, [] => True
  | c, t :: ts => (order p n c).head? = some t ∧ Follows p n t ts

variable {p : Nat → Bool} {n c d k : Nat}

/-! ## One turn -/

theorem turn_eq_rotate (n c : Nat) : turn n c = (List.range n).rotate (c + 1) := by
  apply List.ext_getElem
  · simp [turn]
  · intro i h1 h2
    simp [turn, List.getElem_rotate, Nat.add_comm]

theorem mem_turn {i : Nat} : i ∈ turn n c ↔ i < n := by
  rw [turn_eq_rotate, List.mem_rotate, List.mem_range]

theorem nodup_turn (n c : Nat) : (turn n c).Nodup := by
  rw [turn_eq_rotate]
  exact List.nodup_rotate.mpr List.nodup_range

theorem mem_order {i : Nat} : i ∈ order p n c ↔ i < n ∧ p i = true := by
  rw [order, List.mem_filter, mem_turn]

theorem nodup_order (p : Nat → Bool) (n c : Nat) : (order p n c).Nodup :=
  (nodup_turn n c).filter p

/-- Behind `d` the turn is the one behind `c`, cut behind `d`. -/
theorem turn_next {pre post : List Nat} (h : turn n c = pre ++ d :: post) :
    turn n d = post ++ (pre ++ [d]) := by
  have hlen : n = pre.length + (post.length + 1) := by
    have := congrArg List.length h
    simpa [turn] using this
  have hd : d = (c + 1 + pre.length) % n := by
    have hget := congrArg (fun l => l[pre.length]?) h
    simp [turn, hlen] at hget
    rw [← hget, hlen]
  have hcut : turn n c = (pre ++ [d]) ++ post := by simp [h]
  calc turn n d = (List.range n).rotate (d + 1) := turn_eq_rotate n d
    _ = (List.range n).rotate (c + 1 + (pre.length + 1)) := by
        rw [← List.rotate_mod _ (d + 1), ← List.rotate_mod _ (c + 1 + (pre.length + 1)), hd]
        simp [Nat.add_assoc]
    _ = (turn n c).rotate (pre.length + 1) := by rw [turn_eq_rotate, List.rotate_rotate]
    _ = ((pre ++ [d]) ++ post).rotate (pre ++ [d]).length := by simp [hcut]
    _ = post ++ (pre ++ [d]) := List.rotate_append_length_eq _ _

/-- Behind the next number the order is the same, with that number at its end. -/
theorem order_next {l : List Nat} (h : order p n c = d :: l) : order p n d = l ++ [d] := by
  obtain ⟨pre, post, hturn, hpre, hd, hpost⟩ := List.filter_eq_cons_iff.mp h
  have hnone : pre.filter p = [] := by simpa [List.filter_eq_nil_iff] using hpre
  rw [order, turn_next hturn, List.filter_append, List.filter_append, hpost, hnone]
  simp [hd]

/-! ## The search -/

theorem search_eq_find? (p : Nat → Bool) (n k c : Nat) :
    search p n k c = ((List.range k).map fun i => (c + 1 + i) % n).find? p := by
  induction k generalizing c with
  | zero => rfl
  | succ k ih =>
      have hshift : ∀ i, ((c + 1) % n + 1 + i) % n = (c + 1 + (i + 1)) % n := by
        intro i
        rw [Nat.add_assoc, Nat.mod_add_mod, Nat.add_comm 1 i]
      rw [search, ih, List.range_succ_eq_map, List.map_cons, List.find?_cons, List.map_map]
      simp only [hshift, Nat.add_zero]
      cases p ((c + 1) % n) <;> rfl

/-- **The search** finds the next number; a turn is enough for it. -/
theorem search_eq_head? (p : Nat → Bool) (c : Nat) (hk : n ≤ k) (hn : 0 < n) :
    search p n k c = (order p n c).head? := by
  obtain ⟨m, rfl⟩ := Nat.exists_eq_add_of_le hk
  rw [search_eq_find?, order, List.head?_filter, List.range_add, List.map_append,
    List.find?_append]
  change ((turn n c).find? p).or _ = _
  cases hf : (turn n c).find? p with
  | some d => rfl
  | none =>
      -- what comes after the turn was in it
      rw [Option.none_or, List.find?_eq_none]
      rw [List.find?_eq_none] at hf
      intro i hi
      refine hf i (mem_turn.mpr ?_)
      obtain ⟨j, -, rfl⟩ := List.mem_map.mp hi
      exact Nat.mod_lt _ hn

/-- What is found is the first one behind `c`. -/
theorem head?_order_eq_some : (order p n c).head? = some d ↔
    ∃ i, i < n ∧ d = (c + 1 + i) % n ∧ p d = true ∧ ∀ j, j < i → p ((c + 1 + j) % n) = false := by
  have hget : ∀ i, i < n → (turn n c)[i]? = some ((c + 1 + i) % n) := by
    intro i hi
    simp [turn, hi]
  rw [order, List.head?_filter, List.find?_eq_some_iff_getElem]
  constructor
  · rintro ⟨hd, i, hi, rfl, hbefore⟩
    have hlt : i < n := by simpa [turn] using hi
    refine ⟨i, hlt, by simp [turn], hd, fun j hj => ?_⟩
    simpa [turn] using hbefore j hj
  · rintro ⟨i, hi, rfl, hd, hbefore⟩
    refine ⟨hd, i, by simpa [turn] using hi, by simp [turn], fun j hj => ?_⟩
    simp [turn, hbefore j hj]

theorem head?_order_isSome : ((order p n c).head?).isSome = true ↔ ∃ i, i < n ∧ p i = true := by
  rw [List.isSome_head?]
  constructor
  · intro hne
    obtain ⟨i, hi⟩ := List.exists_mem_of_ne_nil _ hne
    exact ⟨i, mem_order.mp hi⟩
  · rintro ⟨i, hi⟩
    exact List.ne_nil_of_mem (mem_order.mpr hi)

/-! ## A sequence of searches -/

theorem Follows.begins {ts : List Nat} (h : Follows p n c ts)
    (hlen : ts.length ≤ (order p n c).length) : ts <+: order p n c := by
  induction ts generalizing c with
  | nil => exact List.nil_prefix
  | cons t ts ih =>
      obtain ⟨hhead, hrest⟩ := h
      obtain ⟨l, hl⟩ := List.head?_eq_some_iff.mp hhead
      rw [hl] at hlen ⊢
      rw [List.length_cons, List.length_cons] at hlen
      have hpre : ts <+: l ++ [t] := by
        rw [← order_next hl]
        apply ih hrest
        rw [order_next hl, List.length_append]
        omega
      have hts : ts <+: l := List.prefix_of_prefix_length_le hpre (List.prefix_append _ _) (by omega)
      exact List.cons_prefix_cons.mpr ⟨rfl, hts⟩

/-- **Round robin**: as many searches as there are numbers with the property find all of them, in
their order. -/
theorem Follows.eq_order {ts : List Nat} (h : Follows p n c ts)
    (hlen : ts.length = (order p n c).length) : ts = order p n c :=
  (h.begins hlen.le).eq_of_length hlen

end MicroKernel.Lib.Cyclic
