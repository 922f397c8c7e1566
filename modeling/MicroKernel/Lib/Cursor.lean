import Mathlib.Data.List.Chain
import Mathlib.Tactic

set_option autoImplicit false

/-! # Cursors over records

Records of different lengths lie one behind the other: `after p x` is the place behind the record
`x` at `p`, so that a list of records has its places from the first one on. `cursorLoop` is the loop
that takes a cursor from record to record. It does what the records say when its own idea of the next
place is the right one for each of them (`cursorLoop_places`), and only then does the cursor come to
the places of the records (`next_eq_of_visited`).
-/

namespace MicroKernel.Lib

variable {α β : Type}

/-! ## Places -/

/-- The records with their places. -/
def places (after : Nat → α → Nat) : Nat → List α → List (Nat × α)
  | _, [] => []
  | p, x :: l => (p, x) :: places after (after p x) l

/-- The place behind all records. -/
def placesEnd (after : Nat → α → Nat) : Nat → List α → Nat
  | p, [] => p
  | p, x :: l => placesEnd after (after p x) l

/-- The places that a cursor comes to, the last one behind all records. -/
def visits (after : Nat → α → Nat) (p : Nat) (l : List α) : List Nat :=
  (places after p l).map Prod.fst ++ [placesEnd after p l]

section places

variable {after : Nat → α → Nat} {p q : Nat} {x : α} {l : List α}

@[simp] theorem visits_nil (after : Nat → α → Nat) (p : Nat) :
    visits after p ([] : List α) = [p] := rfl

@[simp] theorem visits_cons (after : Nat → α → Nat) (p : Nat) (x : α) (l : List α) :
    visits after p (x :: l) = p :: visits after (after p x) l := rfl

theorem visits_eq_cons (after : Nat → α → Nat) (p : Nat) (l : List α) :
    ∃ l', visits after p l = p :: l' := by
  cases l with
  | nil => exact ⟨[], rfl⟩
  | cons x l => exact ⟨_, rfl⟩

theorem mem_of_mem_places (h : (q, x) ∈ places after p l) : x ∈ l := by
  induction l generalizing p with
  | nil => cases h
  | cons y l ih =>
      rcases List.mem_cons.mp h with heq | h
      · cases heq
        exact List.mem_cons_self
      · exact List.mem_cons_of_mem _ (ih h)

theorem exists_mem_places (h : x ∈ l) (p : Nat) : ∃ q, (q, x) ∈ places after p l := by
  induction l generalizing p with
  | nil => cases h
  | cons y l ih =>
      rcases List.mem_cons.mp h with rfl | h
      · exact ⟨p, List.mem_cons_self⟩
      · obtain ⟨q, hq⟩ := ih h (after p y)
        exact ⟨q, List.mem_cons_of_mem _ hq⟩

/-- Records of the same length. -/
theorem placesEnd_add (size p : Nat) (l : List α) :
    placesEnd (fun q _ => q + size) p l = p + l.length * size := by
  induction l generalizing p with
  | nil => simp [placesEnd]
  | cons x l ih =>
      rw [placesEnd, ih, List.length_cons]
      ring

/-- With records that are not empty there is a place for each of them. -/
theorem length_le_placesEnd (hafter : ∀ q x, q < after q x) (p : Nat) (l : List α) :
    p + l.length ≤ placesEnd after p l := by
  induction l generalizing p with
  | nil => exact Nat.le_refl p
  | cons x l ih =>
      have hx := hafter p x
      have hl := ih (after p x)
      rw [List.length_cons, placesEnd]
      omega

/-- The records lie in front of the end. -/
theorem places_bounds (hafter : ∀ q x, q < after q x) (h : (q, x) ∈ places after p l) :
    p ≤ q ∧ after q x ≤ placesEnd after p l := by
  induction l generalizing p with
  | nil => cases h
  | cons y l ih =>
      have hend := length_le_placesEnd hafter (after p y) l
      rcases List.mem_cons.mp h with heq | h
      · cases heq
        exact ⟨Nat.le_refl q, by rw [placesEnd]; omega⟩
      · have hy := hafter p y
        obtain ⟨h1, h2⟩ := ih h
        exact ⟨by omega, h2⟩

/-- What holds of the first place and is kept by every record holds of all places. -/
theorem places_induction {P : Nat → Prop} (hp : P p) (hstep : ∀ q x, P q → P (after q x)) :
    (∀ q x, (q, x) ∈ places after p l → P q) ∧ P (placesEnd after p l) := by
  induction l generalizing p with
  | nil => exact ⟨fun q x h => (by cases h), hp⟩
  | cons y l ih =>
      obtain ⟨h1, h2⟩ := ih (hstep p y hp)
      refine ⟨fun q x h => ?_, h2⟩
      rcases List.mem_cons.mp h with heq | h
      · cases heq
        exact hp
      · exact h1 q x h

end places

/-! ## The loop -/

/-- `while (more(p)) { acc = body(p, acc); p = next(p); }`: the accumulator, and the places that the
cursor has come to. There is no result if the loop is not over after `k` turns. -/
def cursorLoop (more : Nat → Bool) (body : Nat → β → Option β) (next : Nat → Nat) :
    Nat → Nat → β → Option (β × List Nat)
  | 0, _, _ => none
  | k + 1, p, acc =>
      if more p then
        (body p acc).bind fun acc' =>
          (cursorLoop more body next k (next p) acc').map fun r => (r.1, p :: r.2)
      else some (acc, [p])

section loop

variable {more : Nat → Bool} {body : Nat → β → Option β} {next : Nat → Nat} {after : Nat → α → Nat}
  {k p : Nat} {acc : β} {l : List α}

/-- **The loop over records** that are read rightly. -/
theorem cursorLoop_places {step : β → α → β}
    (h : ∀ q x, (q, x) ∈ places after p l → more q = true ∧ next q = after q x ∧
      ∀ acc, body q acc = some (step acc x))
    (hend : more (placesEnd after p l) = false) (hk : l.length < k) :
    cursorLoop more body next k p acc = some (l.foldl step acc, visits after p l) := by
  induction l generalizing p k acc with
  | nil =>
      obtain ⟨k, rfl⟩ := Nat.exists_eq_add_of_le' (Nat.one_le_of_lt hk)
      rw [cursorLoop, if_neg (by rw [show more p = false from hend]; decide)]
      rfl
  | cons x l ih =>
      obtain ⟨k, rfl⟩ := Nat.exists_eq_add_of_le' (Nat.one_le_of_lt hk)
      obtain ⟨hmore, hnext, hbody⟩ := h p x List.mem_cons_self
      have hlater := fun q y hy => h q y (List.mem_cons_of_mem _ hy)
      have hfew : l.length < k := by simpa using hk
      rw [cursorLoop, if_pos hmore, hbody, Option.bind_some, hnext, ih hlater hend hfew]
      rfl

/-- Each place that a cursor comes to is the next one of the place before. -/
theorem isChain_of_cursorLoop {acc' : β} {visited : List Nat}
    (h : cursorLoop more body next k p acc = some (acc', visited)) :
    visited.head? = some p ∧ visited.IsChain fun q q' => q' = next q := by
  induction k generalizing p acc visited with
  | zero => cases h
  | succ k ih =>
      rw [cursorLoop] at h
      split at h
      · obtain ⟨acc₁, -, hrest⟩ := Option.bind_eq_some_iff.mp h
        obtain ⟨⟨acc₂, rest⟩, hloop, heq⟩ := Option.map_eq_some_iff.mp hrest
        cases heq
        obtain ⟨hhead, hchain⟩ := ih hloop
        cases rest with
        | nil => cases hhead
        | cons q rest =>
            obtain rfl := Option.some.inj hhead
            exact ⟨rfl, List.isChain_cons_cons.mpr ⟨rfl, hchain⟩⟩
      · cases h
        exact ⟨rfl, List.isChain_singleton _⟩

/-- If the cursor has come to the places of the records, it went from each of them to the next. -/
theorem next_eq_of_visited {acc' : β}
    (h : cursorLoop more body next k p acc = some (acc', visits after p l)) {q : Nat} {x : α}
    (hx : (q, x) ∈ places after p l) : after q x = next q := by
  have hchain := (isChain_of_cursorLoop h).2
  clear h
  induction l generalizing p with
  | nil => cases hx
  | cons y l ih =>
      rw [visits_cons] at hchain
      obtain ⟨l', hl'⟩ := visits_eq_cons after (after p y) l
      rcases List.mem_cons.mp hx with heq | hx
      · cases heq
        rw [hl', List.isChain_cons_cons] at hchain
        exact hchain.1
      · exact ih hx hchain.tail

end loop

end MicroKernel.Lib
