import Mathlib.Data.List.TakeWhile
import Mathlib.Tactic

set_option autoImplicit false

/-! # The runs of a list between separators

`runs sep l` are the maximal non-empty stretches of `l` without a separator, in order: what is left of
the pieces of `l` between its separators when the empty ones are taken away. A list has no run, or
separators, a first run, and then nothing or a separator and the rest (`exists_firstRun`).

A reader that hands out one run with each call, whatever it keeps between two calls, hands out the
runs of the list and then nothing (`results_eq`).
-/

namespace MicroKernel.Lib

section runs

variable {α : Type} {sep : α → Bool}

/-- The maximal non-empty stretches without a separator. -/
def runs (sep : α → Bool) (l : List α) : List (List α) := (l.splitOnP sep).filter (· ≠ [])

theorem runs_cons_sep {x : α} (hx : sep x = true) (l : List α) : runs sep (x :: l) = runs sep l := by
  unfold runs
  rw [List.splitOnP_cons_eq_if_modifyHead, if_pos hx, List.filter_cons_of_neg (by simp)]

theorem runs_gap {gap : List α} (hgap : ∀ x ∈ gap, sep x = true) (l : List α) :
    runs sep (gap ++ l) = runs sep l := by
  induction gap with
  | nil => rfl
  | cons x gap ih =>
      rw [List.forall_mem_cons] at hgap
      rw [List.cons_append, runs_cons_sep hgap.1, ih hgap.2]

theorem runs_of_gap {gap : List α} (hgap : ∀ x ∈ gap, sep x = true) : runs sep gap = [] := by
  rw [← List.append_nil gap, runs_gap hgap]
  rfl

theorem runs_of_whole {run : List α} (hne : run ≠ []) (hrun : ∀ x ∈ run, sep x = false) :
    runs sep run = [run] := by
  unfold runs
  rw [List.splitOnP_eq_singleton hrun, List.filter_cons_of_pos (by simpa using hne),
    List.filter_nil]

theorem runs_run {run : List α} (hne : run ≠ []) (hrun : ∀ x ∈ run, sep x = false) {x : α}
    (hx : sep x = true) (l : List α) : runs sep (run ++ x :: l) = run :: runs sep l := by
  unfold runs
  rw [List.splitOnP_append_cons_of_forall_mem hrun x hx,
    List.filter_cons_of_pos (by simpa using hne)]

/-- The first run of a list with what is around it. -/
structure FirstRun (sep : α → Bool) (l gap run tail : List α) : Prop where
  eq : l = gap ++ (run ++ tail)
  gap_sep : ∀ x ∈ gap, sep x = true
  run_whole : ∀ x ∈ run, sep x = false
  run_ne_nil : run ≠ []
  tail_sep : ∀ x ∈ tail.head?, sep x = true

theorem exists_firstRun (sep : α → Bool) (l : List α) :
    (∀ x ∈ l, sep x = true) ∨ ∃ gap run tail, FirstRun sep l gap run tail := by
  induction l with
  | nil => exact Or.inl (by simp)
  | cons x l ih =>
      cases hx : sep x with
      | true =>
          rcases ih with hall | ⟨gap, run, tail, h⟩
          · exact Or.inl (List.forall_mem_cons.mpr ⟨hx, hall⟩)
          · exact Or.inr ⟨x :: gap, run, tail, by rw [h.eq, List.cons_append],
              List.forall_mem_cons.mpr ⟨hx, h.gap_sep⟩, h.run_whole, h.run_ne_nil, h.tail_sep⟩
      | false =>
          refine Or.inr ⟨[], x :: l.takeWhile (fun y => !sep y), l.dropWhile (fun y => !sep y), ?_,
            by simp, ?_, by simp, ?_⟩
          · rw [List.nil_append, List.cons_append, List.takeWhile_append_dropWhile]
          · refine List.forall_mem_cons.mpr ⟨hx, fun y hy => ?_⟩
            simpa using List.mem_takeWhile_imp hy
          · intro y hy
            have hhead := List.head?_dropWhile_not (fun y => !sep y) l
            rw [Option.mem_def] at hy
            simpa [hy] using hhead

theorem FirstRun.runs_eq {l gap run tail : List α} (h : FirstRun sep l gap run tail) :
    runs sep l = run :: runs sep tail.tail := by
  rw [h.eq, runs_gap h.gap_sep]
  cases tail with
  | nil =>
      rw [List.append_nil, runs_of_whole h.run_ne_nil h.run_whole]
      rfl
  | cons x tail => exact runs_run h.run_ne_nil h.run_whole (h.tail_sep x rfl) tail

end runs

/-! ## Readers -/

/-- The results of calls with the arguments of a list, one after the other. A call takes the state
that the one before it has left. -/
def results {α β σ : Type} (call : β → σ → Option (α × σ)) : List β → σ → Option (List α)
  | [], _ => some []
  | arg :: args, s => do
      let (r, s) ← call arg s
      let rs ← results call args s
      some (r :: rs)

/-- **A reader of a list**: where a call with `next` hands out the first of what is left, if anything
is left, `n` calls hand out the list and then nothing. -/
theorem results_eq {α β σ : Type} {call : β → σ → Option (Option α × σ)} {next : β}
    (Left : σ → List α → Prop)
    (hcall : ∀ s l, Left s l → ∃ s', call next s = some (l.head?, s') ∧ Left s' l.tail)
    (n : Nat) {s : σ} {l : List α} (h : Left s l) :
    results call (List.replicate n next) s = some ((List.range n).map (l[·]?)) := by
  induction n generalizing s l with
  | zero => rfl
  | succ n ih =>
      obtain ⟨s', hs, hleft⟩ := hcall s l h
      have hrest : (List.range (n + 1)).map (l[·]?) = l.head? :: (List.range n).map (l.tail[·]?) := by
        rw [List.range_succ_eq_map, List.map_cons, List.map_map]
        simp [Function.comp_def, List.head?_eq_getElem?]
      rw [List.replicate_succ, results, hs, hrest]
      simp [ih hleft]

end MicroKernel.Lib
