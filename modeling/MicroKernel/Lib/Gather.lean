import MicroKernel.Lib.Walk

set_option autoImplicit false

/-! # Gathering along a walk

Each node of a walk has items. `Gathers next items a room l`: from `a` on, until the walk stops or
`room` items are there, the items are `l`. Over finitely many nodes such a list exists unless the walk
comes back to a node and the items of all its steps do not fill the room (`exists_gathers_iff`).

A walk may be meant to visit the nodes of a list, but leave it. `Agrees` says, node by node, when it
gathers what the list has all the same (`Gathers.eq_iff`).
-/

namespace MicroKernel.Lib

variable {α β : Type}

/-- The items `l` are gathered from `a` on. -/
inductive Gathers (next : α → Option α) (items : α → List β) : α → Nat → List β → Prop
  | full {a : α} : Gathers next items a 0 []
  | stop {a : α} {room : Nat} :
      0 < room → next a = none → Gathers next items a room ((items a).take room)
  | go {a b : α} {room : Nat} {l : List β} :
      0 < room → next a = some b → Gathers next items b (room - (items a).length) l →
        Gathers next items a room ((items a).take room ++ l)

/-- The items of the first `n` nodes of the walk from `a`. -/
def collected (next : α → Option α) (items : α → List β) : Nat → α → List β
  | 0, _ => []
  | n + 1, a => items a ++ ((next a).map (collected next items n)).getD []

section gathers

variable {next : α → Option α} {items : α → List β} {a : α} {room : Nat} {l l' : List β}

theorem Gathers.eq_nil (h : Gathers next items a 0 l) : l = [] := by
  cases h with
  | full => rfl
  | stop hroom => exact absurd hroom (Nat.lt_irrefl 0)
  | go hroom => exact absurd hroom (Nat.lt_irrefl 0)

theorem Gathers.forall_mem {p : β → Prop} (h : Gathers next items a room l)
    (hitems : ∀ a, ∀ x ∈ items a, p x) : ∀ x ∈ l, p x := by
  induction h with
  | full => exact fun x hx => absurd hx List.not_mem_nil
  | stop => exact fun x hx => hitems _ x (List.mem_of_mem_take hx)
  | go _ _ _ ih =>
      intro x hx
      rcases List.mem_append.mp hx with hnode | hrest
      · exact hitems _ x (List.mem_of_mem_take hnode)
      · exact ih x hrest

theorem Gathers.unique (h : Gathers next items a room l) (h' : Gathers next items a room l') :
    l = l' := by
  induction h generalizing l' with
  | full => exact h'.eq_nil.symm
  | stop hroom hnext =>
      cases h' with
      | full => exact absurd hroom (Nat.lt_irrefl 0)
      | stop => rfl
      | go _ hnext' =>
          rw [hnext] at hnext'
          cases hnext'
  | go hroom hnext _ ih =>
      cases h' with
      | full => exact absurd hroom (Nat.lt_irrefl 0)
      | stop _ hnext' =>
          rw [hnext] at hnext'
          cases hnext'
      | go _ hnext' hrest =>
          rw [hnext] at hnext'
          cases hnext'
          rw [ih hrest]

/-- Gathering comes to an end when the walk stops or the room is filled. -/
theorem exists_gathers_iff_exists :
    (∃ l, Gathers next items a room l) ↔
      ∃ n, walk next n a = none ∨ room ≤ (collected next items n a).length := by
  constructor
  · rintro ⟨l, h⟩
    induction h with
    | full => exact ⟨0, Or.inr (Nat.zero_le _)⟩
    | stop _ hnext => exact ⟨1, Or.inl (by rw [walk, hnext, Option.bind_none])⟩
    | go _ hnext _ ih =>
        obtain ⟨n, hstop | hfull⟩ := ih
        · exact ⟨n + 1, Or.inl (by rw [walk, hnext, Option.bind_some, hstop])⟩
        · refine ⟨n + 1, Or.inr ?_⟩
          rw [collected, hnext, Option.map_some, Option.getD_some, List.length_append]
          omega
  · rintro ⟨n, h⟩
    induction n generalizing a room with
    | zero =>
        rcases h with h | h
        · cases h
        · obtain rfl : room = 0 := Nat.le_zero.mp h
          exact ⟨[], .full⟩
    | succ n ih =>
        rcases Nat.eq_zero_or_pos room with rfl | hroom
        · exact ⟨[], .full⟩
        · cases hnext : next a with
          | none => exact ⟨_, .stop hroom hnext⟩
          | some b =>
              rw [walk, collected, hnext, Option.bind_some, Option.map_some, Option.getD_some,
                List.length_append] at h
              have hrest : walk next n b = none ∨
                  room - (items a).length ≤ (collected next items n b).length :=
                h.imp_right fun hfull => by omega
              obtain ⟨l, hl⟩ := ih hrest
              exact ⟨_, .go hroom hnext hl⟩

theorem collected_eq_nil (h : ∀ a, items a = []) (n : Nat) (a : α) :
    collected next items n a = [] := by
  induction n generalizing a with
  | zero => rfl
  | succ n ih =>
      rw [collected, h a, List.nil_append]
      cases next a with
      | none => rfl
      | some b => exact ih b

/-- **Gathering over finitely many nodes** comes to an end unless the walk goes round and the room is
never filled. -/
theorem exists_gathers_iff (t : Finset α) (ht : ∀ b c, next b = some c → c ∈ t) :
    (∃ l, Gathers next items a room l) ↔
      ¬ (Repeats next a ∧ ∀ n, (collected next items n a).length < room) := by
  rw [exists_gathers_iff_exists]
  constructor
  · rintro ⟨n, hstop | hfull⟩ ⟨hrep, hless⟩
    · exact hrep.walk_ne_none n hstop
    · exact absurd (hless n) (Nat.not_lt.mpr hfull)
  · intro h
    by_cases hrep : Repeats next a
    · by_contra hnever
      refine h ⟨hrep, fun n => Nat.lt_of_not_le fun hfull => hnever ⟨n, Or.inr hfull⟩⟩
    · exact ⟨t.card + 1, Or.inl (walk_eq_none_of_not_repeats t ht hrep)⟩

end gathers

/-! ## A list of nodes -/

section list

variable (next : α → Option α) (items : α → List β) (ends : α → Bool)

/-- A node that ends the walk has no next one. -/
def onward (a : α) : Option α := if ends a then none else next a

/-- What the nodes of a list have for `room` items, up to one that ends it. -/
def listed : List α → Nat → List β
  | [], _ => []
  | a :: as, room =>
      (items a).take room ++ if ends a then [] else listed as (room - (items a).length)

/-- What is gathered behind a node, if anything follows, is what the rest of the list has. -/
def SameBehind (as : List α) (room : Nat) : Option α → Prop
  | none => listed items ends as room = []
  | some b => ∀ l, Gathers (onward next ends) items b room l → l = listed items ends as room

/-- The walk along the list gathers what the list has: at each node nothing more is wanted, or the
next node is the one of the list; and where it is another one, it comes to the same. -/
def Agrees : List α → Nat → Prop
  | [], _ => True
  | a :: as, room =>
      (room ≤ (items a).length ∨ ends a = true) ∨
        (next a = as.head? ∧ Agrees as (room - (items a).length)) ∨
        (next a ≠ as.head? ∧ SameBehind next items ends as (room - (items a).length) (next a))

variable {next items ends} {a : α} {as : List α} {room : Nat} {l : List β}

theorem listed_zero (as : List α) : listed items ends as 0 = [] := by
  induction as with
  | nil => rfl
  | cons a as ih =>
      rw [listed, List.take_zero, List.nil_append, Nat.zero_sub, ih]
      exact ite_self _

theorem onward_eq_none : onward next ends a = none ↔ ends a = true ∨ next a = none := by
  unfold onward
  cases ends a with
  | true => simp
  | false => simp

theorem onward_eq_some {b : α} :
    onward next ends a = some b ↔ ends a = false ∧ next a = some b := by
  unfold onward
  cases ends a with
  | true => simp
  | false => simp

theorem sameBehind_some {b : α} (h : Gathers (onward next ends) items b room l) :
    SameBehind next items ends as room (some b) ↔ l = listed items ends as room :=
  ⟨fun hall => hall l h, fun heq _ h' => (h'.unique h).trans heq⟩

/-- A node behind which nothing is wanted. -/
theorem listed_of_done (h : room ≤ (items a).length ∨ ends a = true) :
    listed items ends (a :: as) room = (items a).take room := by
  rw [listed]
  rcases h with hfull | hend
  · rw [Nat.sub_eq_zero_of_le hfull, listed_zero, ite_self, List.append_nil]
  · rw [if_pos hend, List.append_nil]

theorem Gathers.of_done (h : Gathers (onward next ends) items a room l)
    (hdone : room ≤ (items a).length ∨ ends a = true) : l = (items a).take room := by
  cases h with
  | full => exact List.take_zero.symm
  | stop => rfl
  | go _ hnext hrest =>
      obtain ⟨hend, -⟩ := onward_eq_some.mp hnext
      have hfull : room ≤ (items a).length := hdone.resolve_right (by rw [hend]; decide)
      rw [Nat.sub_eq_zero_of_le hfull] at hrest
      rw [hrest.eq_nil, List.append_nil]

/-- One node, with what is known of the rest of the list. -/
theorem Gathers.eq_iff_cons (h : Gathers (onward next ends) items a room l)
    (ih : ∀ b l', Gathers (onward next ends) items b (room - (items a).length) l' →
      some b = as.head? → (l' = listed items ends as (room - (items a).length) ↔
        Agrees next items ends as (room - (items a).length))) :
    l = listed items ends (a :: as) room ↔ Agrees next items ends (a :: as) room := by
  by_cases hdone : room ≤ (items a).length ∨ ends a = true
  · rw [listed_of_done hdone]
    exact iff_of_true (h.of_done hdone) (Or.inl hdone)
  obtain ⟨hroom, hend⟩ := not_or.mp hdone
  rw [Bool.not_eq_true] at hend
  rw [listed, hend, Agrees, or_iff_right hdone]
  cases h with
  | full => exact absurd (Nat.zero_le _) hroom
  | stop _ hnext =>
      have hnone : next a = none := (onward_eq_none.mp hnext).resolve_left (by rw [hend]; decide)
      rw [hnone, SameBehind]
      cases as with
      | nil => simp [listed, Agrees]
      | cons b as => simp
  | @go _ b _ l' _ hnext hrest =>
      obtain ⟨-, hsome⟩ := onward_eq_some.mp hnext
      rw [hsome, sameBehind_some hrest]
      have hcancel : (items a).take room ++ l' = (items a).take room ++
          (if false = true then [] else listed items ends as (room - (items a).length)) ↔
            l' = listed items ends as (room - (items a).length) := by
        rw [if_neg Bool.false_ne_true, List.append_right_inj]
      rw [hcancel]
      by_cases hhead : some b = as.head?
      · rw [ih b l' hrest hhead]
        simp [hhead]
      · simp [hhead]

/-- **When the walk gathers what the list has.** -/
theorem Gathers.eq_iff (h : Gathers (onward next ends) items a room l) :
    l = listed items ends (a :: as) room ↔ Agrees next items ends (a :: as) room := by
  induction as generalizing a room l with
  | nil => exact h.eq_iff_cons fun _ _ _ hnext => absurd hnext (by simp)
  | cons b as ih =>
      refine h.eq_iff_cons fun c l' h' hnext => ?_
      obtain rfl : c = b := Option.some.inj hnext
      exact ih h'

end list

end MicroKernel.Lib
