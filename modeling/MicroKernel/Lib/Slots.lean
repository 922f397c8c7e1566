import Mathlib.Data.List.Basic
import Mathlib.Tactic

set_option autoImplicit false

/-! # Tables with a fixed number of slots

A table is a list of slots, each of them empty or holding a key and a value. `put` writes to the
slot of the key; when the key has none, to the first empty slot; and when no slot is empty, to
the first slot of all, whose key is lost.

`put_cases` says which slot is written. Everything else follows from it: keys stay distinct, the
key just written is found, and a lookup of another key changes only when that key was in the
first slot of a full table (`Evicts`).
-/

namespace MicroKernel.Lib

/-- A table: its slots in order. -/
abbrev Slots (K V : Type) := List (Option (K × V))

namespace Slots

variable {K V : Type} [DecidableEq K]

/-- The slot holds the key `k`. -/
def hasKey (k : K) (e : Option (K × V)) : Bool := e.any fun p => p.1 = k

/-- The value of the first slot with the key `k`. -/
def find (t : Slots K V) (k : K) : Option V := (t.find? (hasKey k)).bind fun e => e.map Prod.snd

/-- The slot that `put` writes to. -/
def slot (t : Slots K V) (k : K) : Nat :=
  (t.findIdx? (hasKey k)).getD ((t.findIdx? Option.isNone).getD 0)

/-- Write the value of `k`. -/
def put (t : Slots K V) (k : K) (v : V) : Slots K V := t.set (t.slot k) (some (k, v))

/-- No two slots hold the same key. -/
def Distinct (t : Slots K V) : Prop :=
  t.Pairwise fun a b => ∀ x ∈ a, ∀ y ∈ b, x.1 ≠ y.1

/-- Writing the key `k` takes the slot of the key `k'` away: `k` has no slot, no slot is empty,
and `k'` is in the first one. -/
def Evicts (t : Slots K V) (k k' : K) : Prop :=
  t.find k = none ∧ none ∉ t ∧ ∃ e ∈ t.head?, hasKey k' e = true

/-! ## Lookups -/

section find

variable {t u : Slots K V} {k : K} {v : V} {e : Option (K × V)}

theorem hasKey_some (k k' : K) (v : V) : hasKey k (some (k', v)) = true ↔ k' = k := by
  simp [hasKey]

theorem eq_some_of_hasKey (h : hasKey k e = true) : ∃ v, e = some (k, v) := by
  cases e with
  | none => simp [hasKey] at h
  | some p =>
      obtain ⟨k', v⟩ := p
      rw [hasKey_some] at h
      exact ⟨v, by rw [h]⟩

theorem find_eq_none : t.find k = none ↔ ∀ e ∈ t, hasKey k e = false := by
  unfold find
  rw [Option.bind_eq_none_iff]
  constructor
  · intro h e he
    by_contra hk
    have hfound : (t.find? (hasKey k)).isSome = true :=
      List.find?_isSome.mpr ⟨e, he, by simpa using hk⟩
    obtain ⟨e', he'⟩ := Option.isSome_iff_exists.mp hfound
    obtain ⟨v, rfl⟩ := eq_some_of_hasKey (List.find?_some he')
    exact absurd (h _ he') (by simp)
  · intro h e he
    have hk := h e (List.mem_of_find?_eq_some he)
    rw [List.find?_some he] at hk
    cases hk

theorem find_append_of_none (h : ∀ e ∈ t, hasKey k e = false) : (t ++ u).find k = u.find k := by
  have hnone : t.find? (hasKey k) = none := by
    rw [List.find?_eq_none]
    intro e he
    simp [h e he]
  unfold find
  rw [List.find?_append, hnone, Option.none_or]

theorem find_cons_pos : find (some (k, v) :: u) k = some v := by
  unfold find
  rw [List.find?_cons_of_pos (by simp [hasKey])]
  rfl

theorem find_cons_neg (h : hasKey k e = false) : find (e :: u) k = u.find k := by
  unfold find
  rw [List.find?_cons_of_neg (by simp [h])]

/-- A slot in the middle that does not hold the key does not matter. -/
theorem find_middle {e' : Option (K × V)} (h : hasKey k e = false) (h' : hasKey k e' = false) :
    (t ++ e :: u).find k = (t ++ e' :: u).find k := by
  induction t with
  | nil => rw [List.nil_append, List.nil_append, find_cons_neg h, find_cons_neg h']
  | cons a t ih =>
      rw [List.cons_append, List.cons_append]
      by_cases ha : hasKey k a = true
      · obtain ⟨w, rfl⟩ := eq_some_of_hasKey ha
        rw [find_cons_pos, find_cons_pos]
      · have ha' : hasKey k a = false := by simpa using ha
        rw [find_cons_neg ha', find_cons_neg ha', ih]

end find

/-! ## What a write does -/

section put

variable {t : Slots K V} {k k' : K} {v : V}

/-- **What a write does.** It replaces one slot: the first one with the key, the first empty one
when there is none with the key, the first of all when there is no empty one either. -/
theorem put_cases (ht : t ≠ []) (k : K) (v : V) :
    ∃ pre e post, t = pre ++ e :: post ∧ t.put k v = pre ++ some (k, v) :: post ∧
      ((hasKey k e = true ∧ ∀ x ∈ pre, hasKey k x = false) ∨
        (t.find k = none ∧ (e = none ∨ none ∉ t ∧ pre = []))) := by
  have hset : ∀ i, t.slot k = i → ∀ h : i < t.length,
      t.put k v = t.take i ++ some (k, v) :: t.drop (i + 1) := by
    intro i hi h
    rw [put, hi, List.set_eq_take_append_cons_drop, if_pos h]
  have hsplit : ∀ i, ∀ h : i < t.length, t = t.take i ++ t[i] :: t.drop (i + 1) := by
    intro i h
    rw [List.cons_getElem_drop_succ, List.take_append_drop]
  cases hkey : t.findIdx? (hasKey k) with
  | some i =>
      obtain ⟨hi, hp, hbefore⟩ := List.findIdx?_eq_some_iff_getElem.mp hkey
      have hslot : t.slot k = i := by rw [slot, hkey, Option.getD_some]
      refine ⟨t.take i, t[i], t.drop (i + 1), hsplit i hi, hset i hslot hi, Or.inl ⟨hp, ?_⟩⟩
      intro x hx
      obtain ⟨j, hj, rfl⟩ := List.mem_take_iff_getElem.mp hx
      simpa using hbefore j (by omega)
  | none =>
      have hnone : t.find k = none := by
        rw [find_eq_none]
        exact List.findIdx?_eq_none_iff.mp hkey
      cases hempty : t.findIdx? Option.isNone with
      | some i =>
          obtain ⟨hi, hp, -⟩ := List.findIdx?_eq_some_iff_getElem.mp hempty
          have hslot : t.slot k = i := by
            rw [slot, hkey, hempty, Option.getD_none, Option.getD_some]
          exact ⟨t.take i, t[i], t.drop (i + 1), hsplit i hi, hset i hslot hi,
            Or.inr ⟨hnone, Or.inl (Option.isNone_iff_eq_none.mp hp)⟩⟩
      | none =>
          have hlen : 0 < t.length := List.length_pos_of_ne_nil ht
          have hslot : t.slot k = 0 := by
            rw [slot, hkey, hempty, Option.getD_none, Option.getD_none]
          have hfull : none ∉ t := fun hmem => by
            simpa using List.findIdx?_eq_none_iff.mp hempty none hmem
          refine ⟨t.take 0, t[0], t.drop (0 + 1), hsplit 0 hlen, hset 0 hslot hlen,
            Or.inr ⟨hnone, Or.inr ⟨hfull, List.take_zero⟩⟩⟩

/-- The key just written is found. -/
theorem find_put_same (ht : t ≠ []) (k : K) (v : V) : (t.put k v).find k = some v := by
  obtain ⟨pre, e, post, rfl, hput, hcase⟩ := put_cases ht k v
  have hpre : ∀ x ∈ pre, hasKey k x = false := by
    rcases hcase with ⟨-, h⟩ | ⟨h, -⟩
    · exact h
    · intro x hx
      exact find_eq_none.mp h x (List.mem_append_left _ hx)
  rw [hput, find_append_of_none hpre, find_cons_pos]

theorem Distinct.put (hd : Distinct t) (ht : t ≠ []) (k : K) (v : V) : Distinct (t.put k v) := by
  obtain ⟨pre, e, post, rfl, hput, hcase⟩ := put_cases ht k v
  rw [hput]
  obtain ⟨h1, h2, h3⟩ := List.pairwise_append.mp hd
  obtain ⟨h4, h5⟩ := List.pairwise_cons.mp h2
  -- the key is in no other slot
  have hother : ∀ x ∈ pre ++ post, ∀ y ∈ x, y.1 ≠ k := by
    intro x hx y hy hyk
    rcases hcase with ⟨he, -⟩ | ⟨hnone, -⟩
    · obtain ⟨w, rfl⟩ := eq_some_of_hasKey he
      rcases List.mem_append.mp hx with hx | hx
      · exact h3 x hx _ List.mem_cons_self y hy (k, w) rfl hyk
      · exact h4 x hx (k, w) rfl y hy hyk.symm
    · have hmem : x ∈ pre ++ e :: post := by
        simp only [List.mem_append, List.mem_cons] at hx ⊢
        tauto
      have := find_eq_none.mp hnone x hmem
      rw [Option.mem_def.mp hy, hasKey, Option.any_some, decide_eq_false_iff_not] at this
      exact this hyk
  refine List.pairwise_append.mpr ⟨h1, List.pairwise_cons.mpr ⟨?_, h5⟩, ?_⟩
  · intro x hx a ha y hy
    rw [Option.mem_def, Option.some.injEq] at ha
    rw [← ha]
    exact (hother x (List.mem_append_right _ hx) y hy).symm
  · intro x hx b hb y hy a ha
    rcases List.mem_cons.mp hb with rfl | hb
    · rw [Option.mem_def, Option.some.injEq] at ha
      rw [← ha]
      exact hother x (List.mem_append_left _ hx) y hy
    · exact h3 x hx b (List.mem_cons_of_mem _ hb) y hy a ha

theorem Evicts.ne (h : Evicts t k k') : k ≠ k' := by
  rintro rfl
  obtain ⟨hnone, -, e, he, hk⟩ := h
  have := find_eq_none.mp hnone e (List.mem_of_mem_head? he)
  rw [hk] at this
  cases this

/-- A key whose slot is taken away is not found any more. -/
theorem Evicts.find_put (h : Evicts t k k') (hd : Distinct t) (v : V) :
    (t.put k v).find k' = none := by
  have hne := h.ne
  obtain ⟨hnone, hfull, e₀, he₀, hk₀⟩ := h
  have ht : t ≠ [] := by
    rintro rfl
    simp at he₀
  obtain ⟨pre, e, post, rfl, hput, hcase⟩ := put_cases ht k v
  have hpre : pre = [] := by
    rcases hcase with ⟨he, -⟩ | ⟨-, rfl | ⟨-, h⟩⟩
    · have := find_eq_none.mp hnone e (by simp)
      rw [he] at this
      cases this
    · exact absurd (by simp) hfull
    · exact h
  subst hpre
  rw [List.nil_append] at hd
  simp only [List.nil_append, List.head?_cons, Option.mem_def, Option.some.injEq] at he₀ hput
  subst he₀
  obtain ⟨w, rfl⟩ := eq_some_of_hasKey hk₀
  rw [List.nil_append, hput, find_cons_neg (by simpa [hasKey] using hne), find_eq_none]
  intro x hx
  -- the other slots have other keys
  by_contra hxk
  obtain ⟨w', rfl⟩ := eq_some_of_hasKey (by simpa using hxk)
  exact (List.pairwise_cons.mp hd).1 _ hx (k', w) rfl (k', w') rfl rfl

/-- Every other lookup of another key is as before. -/
theorem find_put_ne (ht : t ≠ []) (hk : k ≠ k') (h : ¬ Evicts t k k') (v : V) :
    (t.put k v).find k' = t.find k' := by
  obtain ⟨pre, e, post, rfl, hput, hcase⟩ := put_cases ht k v
  have hnew : hasKey k' (some (k, v)) = false := by simpa [hasKey] using hk
  have hold : hasKey k' e = false := by
    rcases hcase with ⟨he, -⟩ | ⟨hnone, rfl | ⟨hfull, rfl⟩⟩
    · obtain ⟨w, rfl⟩ := eq_some_of_hasKey he
      simpa [hasKey] using hk
    · rfl
    · by_contra he
      exact h ⟨hnone, hfull, e, by simp, by simpa using he⟩
  rw [hput]
  exact find_middle hnew hold

end put

end Slots

end MicroKernel.Lib
