import Mathlib.Data.List.Basic

set_option autoImplicit false

/-! # Cells that are written in loops

`CellStore` is a state with cells at the indices `ι`, for instance the pixels in a memory. A loop that
writes cells leaves in each what it wrote there (`get_writeAll`). A loop that copies cells leaves in each
what its source held in the beginning, when no source was written before it is read (`get_copyAll`).
-/

namespace MicroKernel.Lib

/-- The cells of a state. Nothing is known of those that are not valid. -/
structure CellStore (σ ι α : Type) where
  get : σ → ι → α
  set : σ → ι → α → σ
  Valid : ι → Prop
  get_set_self : ∀ s i a, Valid i → get (set s i a) i = a
  get_set_ne : ∀ s i j a, Valid i → Valid j → j ≠ i → get (set s i a) j = get s j

namespace CellStore

variable {σ ι α : Type} (c : CellStore σ ι α)

/-- Write the cells of the list in turn. -/
def writeAll (f : ι → α) (l : List ι) (s : σ) : σ := l.foldl (fun s i => c.set s i (f i)) s

/-- Copy to the cells of the list in turn, each from its source. -/
def copyAll (source : ι → ι) (l : List ι) (s : σ) : σ :=
  l.foldl (fun s i => c.set s i (c.get s (source i))) s

/-- What every write keeps. -/
theorem writeAll_keeps {P : σ → Prop} (f : ι → α) {l : List ι}
    (hset : ∀ s, ∀ i ∈ l, ∀ a, P s → P (c.set s i a)) {s : σ} (h : P s) : P (c.writeAll f l s) := by
  induction l generalizing s with
  | nil => exact h
  | cons i l ih =>
      exact ih (fun s j hj => hset s j (List.mem_cons_of_mem _ hj)) (hset s i List.mem_cons_self _ h)

theorem copyAll_keeps {P : σ → Prop} (source : ι → ι) {l : List ι}
    (hset : ∀ s, ∀ i ∈ l, ∀ a, P s → P (c.set s i a)) {s : σ} (h : P s) :
    P (c.copyAll source l s) := by
  induction l generalizing s with
  | nil => exact h
  | cons i l ih =>
      exact ih (fun s j hj => hset s j (List.mem_cons_of_mem _ hj)) (hset s i List.mem_cons_self _ h)

variable [DecidableEq ι]

/-- **After a loop of writes** a cell of the list holds what was written there. -/
theorem get_writeAll (f : ι → α) {l : List ι} (hl : ∀ i ∈ l, c.Valid i) {j : ι} (hj : c.Valid j)
    (s : σ) : c.get (c.writeAll f l s) j = if j ∈ l then f j else c.get s j := by
  induction l generalizing s with
  | nil => rfl
  | cons i l ih =>
      have hi := hl i List.mem_cons_self
      have hrest := ih (fun k hk => hl k (List.mem_cons_of_mem _ hk)) (c.set s i (f i))
      change c.get (c.writeAll f l (c.set s i (f i))) j = _
      rw [hrest]
      by_cases hmem : j ∈ l
      · rw [if_pos hmem, if_pos (List.mem_cons_of_mem _ hmem)]
      · rw [if_neg hmem]
        by_cases hji : j = i
        · rw [hji, c.get_set_self s i _ hi, if_pos List.mem_cons_self]
        · rw [c.get_set_ne s i j _ hi hj hji, if_neg (by simp [hji, hmem])]

/-- **After a loop of copies** a cell of the list holds what its source held before. -/
theorem get_copyAll (source : ι → ι) {l : List ι} (hl : ∀ i ∈ l, c.Valid i ∧ c.Valid (source i))
    (horder : l.Pairwise fun i j => source j ≠ i ∧ j ≠ i) {j : ι} (hj : c.Valid j) (s : σ) :
    c.get (c.copyAll source l s) j = if j ∈ l then c.get s (source j) else c.get s j := by
  induction l generalizing s with
  | nil => rfl
  | cons i l ih =>
      obtain ⟨hi, -⟩ := hl i List.mem_cons_self
      obtain ⟨hfirst, hrestOrder⟩ := List.pairwise_cons.mp horder
      have hrestValid : ∀ k ∈ l, c.Valid k ∧ c.Valid (source k) :=
        fun k hk => hl k (List.mem_cons_of_mem _ hk)
      change c.get (c.copyAll source l (c.set s i (c.get s (source i)))) j = _
      rw [ih hrestValid hrestOrder]
      by_cases hmem : j ∈ l
      · -- the source of a later cell is not the cell that was just written
        rw [if_pos hmem, if_pos (List.mem_cons_of_mem _ hmem),
          c.get_set_ne s i _ _ hi (hrestValid j hmem).2 (hfirst j hmem).1]
      · rw [if_neg hmem]
        by_cases hji : j = i
        · rw [hji, c.get_set_self s i _ hi, if_pos List.mem_cons_self]
        · rw [c.get_set_ne s i j _ hi hj hji, if_neg (by simp [hji, hmem])]

end CellStore

end MicroKernel.Lib
