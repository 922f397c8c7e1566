import Mathlib.Data.Finset.Card
import Mathlib.Data.Finset.Range
import Mathlib.Data.List.Nodup
import Mathlib.Data.List.Infix

set_option autoImplicit false

/-! # Chains of links

A map that sends every node to a link: the chain stops there, goes on at another node, or is
broken. `Chain f a l` says that following the links from `a` visits the nodes `l` and then stops.
-/

namespace MicroKernel.Lib

/-- Where a chain goes after a node. -/
inductive Link (α : Type) where
  | stop
  | next (a : α)
  | broken
  deriving DecidableEq

/-- The links of `f`, followed from a node, visit the nodes of the list and then stop. -/
inductive Chain {α : Type} (f : α → Link α) : α → List α → Prop where
  | last {a : α} (h : f a = .stop) : Chain f a [a]
  | cons {a b : α} {l : List α} (h : f a = .next b) (hl : Chain f b l) : Chain f a (a :: l)

namespace Chain

variable {α : Type} {f g : α → Link α} {a b : α} {l l' : List α}

theorem head_mem (h : Chain f a l) : a ∈ l := by
  cases h with
  | last _ => exact List.mem_singleton_self a
  | cons _ _ => exact List.mem_cons_self

theorem eq_cons (h : Chain f a l) : ∃ l', l = a :: l' := by
  cases h with
  | last _ => exact ⟨[], rfl⟩
  | cons _ _ => exact ⟨_, rfl⟩

theorem unique (h : Chain f a l) (h' : Chain f a l') : l = l' := by
  induction h generalizing l' with
  | last hs =>
      cases h' with
      | last _ => rfl
      | cons hn _ =>
          rw [hs] at hn
          cases hn
  | cons hn _ ih =>
      cases h' with
      | last hs =>
          rw [hs] at hn
          cases hn
      | cons hn' hl' =>
          rw [hn] at hn'
          cases hn'
          rw [ih hl']

/-- From every node of a chain the rest of it can be followed. -/
theorem suffix (h : Chain f a l) (hb : b ∈ l) : ∃ l', Chain f b l' ∧ l' <:+ l := by
  induction h with
  | last hs =>
      rw [List.mem_singleton] at hb
      subst hb
      exact ⟨_, .last hs, List.suffix_refl _⟩
  | cons hn hl ih =>
      rcases List.mem_cons.mp hb with rfl | hb
      · exact ⟨_, .cons hn hl, List.suffix_refl _⟩
      · obtain ⟨l', h1, h2⟩ := ih hb
        exact ⟨l', h1, h2.trans (List.suffix_cons _ _)⟩

/-- A chain, cut at one of its nodes. -/
theorem append_right {l₁ l₂ : List α} (h : Chain f a (l₁ ++ b :: l₂)) : Chain f b (b :: l₂) := by
  induction l₁ generalizing a with
  | nil =>
      rw [List.nil_append] at h
      obtain ⟨l', hl'⟩ := h.eq_cons
      cases hl'
      exact h
  | cons x l₁ ih =>
      rw [List.cons_append] at h
      generalize hr : l₁ ++ b :: l₂ = r at h
      cases h with
      | last _ => simp at hr
      | cons _ hl =>
          subst hr
          exact ih hl

/-- A chain visits no node twice. -/
theorem nodup (h : Chain f a l) : l.Nodup := by
  induction h with
  | last _ => exact List.nodup_singleton _
  | cons hn hl ih =>
      refine List.nodup_cons.mpr ⟨fun hmem => ?_, ih⟩
      -- followed from its second visit, the chain would be shorter
      obtain ⟨l', h1, h2⟩ := hl.suffix hmem
      have hle := h2.length_le
      rw [h1.unique (.cons hn hl), List.length_cons] at hle
      omega

theorem congr (h : Chain f a l) (hg : ∀ x, x ∈ l → g x = f x) : Chain g a l := by
  induction h with
  | last hs => exact .last (by rw [hg _ (List.mem_singleton_self _), hs])
  | cons hn _ ih =>
      refine .cons (by rw [hg _ List.mem_cons_self, hn]) (ih fun x hx => ?_)
      exact hg x (List.mem_cons_of_mem _ hx)

theorem next_mem {c : α} (h : Chain f a l) (hb : b ∈ l) (hn : f b = .next c) : c ∈ l := by
  obtain ⟨l', h', hsuffix⟩ := h.suffix hb
  cases h' with
  | last hs =>
      rw [hs] at hn
      cases hn
  | cons hn' hl =>
      rw [hn'] at hn
      cases hn
      exact hsuffix.subset (List.mem_cons_of_mem _ hl.head_mem)

/-- Each node of a chain but the last is linked to the one behind it in the list. -/
theorem link_getD (h : Chain f a l) (d : α) {j : Nat} (hj : j + 1 < l.length) :
    f (l.getD j d) = .next (l.getD (j + 1) d) := by
  induction h generalizing j with
  | last _ => simp at hj
  | cons hn hl ih =>
      cases j with
      | zero =>
          obtain ⟨l', rfl⟩ := hl.eq_cons
          exact hn
      | succ j => exact ih (by simpa using hj)

theorem link_ne_broken (h : Chain f a l) (hb : b ∈ l) : f b ≠ .broken := by
  obtain ⟨l', h', -⟩ := h.suffix hb
  cases h' with
  | last hs =>
      rw [hs]
      exact fun hc => by cases hc
  | cons hn _ =>
      rw [hn]
      exact fun hc => by cases hc

/-- A chain through numbers below `n` has at most `n` of them. -/
theorem length_le {f : Nat → Link Nat} {a n : Nat} {l : List Nat} (h : Chain f a l)
    (hn : ∀ x, x ∈ l → x < n) : l.length ≤ n := by
  have hsub : l.toFinset ⊆ Finset.range n := by
    intro x hx
    rw [List.mem_toFinset] at hx
    rw [Finset.mem_range]
    exact hn x hx
  have hcard := Finset.card_le_card hsub
  rwa [List.toFinset_card_of_nodup h.nodup, Finset.card_range] at hcard

end Chain

end MicroKernel.Lib
