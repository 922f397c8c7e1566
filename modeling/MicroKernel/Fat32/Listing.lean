import MicroKernel.Fat32.Reach
import MicroKernel.Fat32.Chain
import MicroKernel.Fat32.Names

set_option autoImplicit false

/-! # What a directory lists

The slots of a directory in the order in which they are read, up to the first end marker. The three
functions that look through a directory are searches of this list, or of the part of it that lies in
the first cluster.
-/

namespace MicroKernel.Fat32

open MicroKernel.Lib Bytes

/-! ## The listing -/

theorem mem_takeWhile_range {p : Nat → Bool} {n j : Nat} :
    j ∈ (List.range n).takeWhile p ↔ j < n ∧ ∀ i, i ≤ j → p i = true := by
  induction n with
  | zero => simp
  | succ n ih =>
      rw [List.range_succ, List.takeWhile_append]
      split
      next hlen =>
        -- everything before the last number passes
        have hall := List.takeWhile_eq_self_iff.mp ((List.takeWhile_sublist _).eq_of_length hlen)
        rw [List.mem_append, List.mem_range, List.takeWhile_cons]
        constructor
        · rintro (hj | hj)
          · exact ⟨by omega, fun i hi => hall i (List.mem_range.mpr (by omega))⟩
          · split at hj
            next hn =>
              obtain rfl : j = n := by simpa using hj
              refine ⟨by omega, fun i hi => ?_⟩
              rcases Nat.lt_or_eq_of_le hi with hi | rfl
              · exact hall i (List.mem_range.mpr hi)
              · exact hn
            next => simp at hj
        · rintro ⟨hj, hp⟩
          rcases Nat.lt_or_eq_of_le (Nat.le_of_lt_succ hj) with hj | rfl
          · exact Or.inl hj
          · right
            rw [if_pos (hp j (Nat.le_refl j))]
            simp
      next hlen =>
        rw [ih]
        constructor
        · rintro ⟨hj, hp⟩
          exact ⟨by omega, hp⟩
        · rintro ⟨hj, hp⟩
          refine ⟨?_, hp⟩
          by_contra hge
          apply hlen
          rw [List.takeWhile_eq_self_iff.mpr fun i hi => hp i (by have := List.mem_range.mp hi; omega)]

namespace Volume

variable (V : Volume) (d : Disk)

/-- The slots of the clusters `l`, in the order in which they are read. -/
def slotsOf (l : List Nat) : List (Nat × Nat) :=
  l.flatMap fun c => (List.range V.slots).map fun j => (c, j)

/-- The entry in a slot. -/
def entryIn (p : Nat × Nat) : DirEntry := V.slot d p.1 p.2

/-- The slots of the clusters `l` before the first end marker. -/
def listing (l : List Nat) : List (Nat × Nat) :=
  (V.slotsOf l).takeWhile fun p => !(V.entryIn d p).isEnd

/-- Cluster `c` has no end marker. -/
def full (c : Nat) : Bool := (List.range V.slots).all fun j => !(V.slot d c j).isEnd

variable {V d}

theorem full_iff {c : Nat} :
    V.full d c = true ↔ ∀ j, j < V.slots → (V.slot d c j).isEnd = false := by
  unfold full
  simp

theorem listing_cons (c : Nat) (l : List Nat) : V.listing d (c :: l)
    = if V.full d c then V.listing d [c] ++ V.listing d l else V.listing d [c] := by
  unfold listing slotsOf
  rw [List.flatMap_cons, List.flatMap_cons, List.flatMap_nil, List.append_nil]
  by_cases hfull : V.full d c = true
  · have hall : ∀ p ∈ (List.range V.slots).map fun j => (c, j),
        (!(V.entryIn d p).isEnd) = true := by
      intro p hp
      obtain ⟨j, hj, rfl⟩ := List.mem_map.mp hp
      rw [Bool.not_eq_true']
      exact full_iff.mp hfull j (List.mem_range.mp hj)
    rw [if_pos hfull, List.takeWhile_append_of_pos hall, List.takeWhile_eq_self_iff.mpr hall]
  · rw [if_neg hfull, List.takeWhile_append, if_neg]
    intro hlen
    apply hfull
    rw [full_iff]
    intro j hj
    have heq := (List.takeWhile_sublist _).eq_of_length hlen
    have hmem : (c, j) ∈ (List.range V.slots).map fun j => (c, j) :=
      List.mem_map.mpr ⟨j, List.mem_range.mpr hj, rfl⟩
    have := List.takeWhile_eq_self_iff.mp heq (c, j) hmem
    rwa [Bool.not_eq_true'] at this

/-- What the first cluster lists comes first. -/
theorem listing_first (c : Nat) (l : List Nat) : V.listing d [c] <+: V.listing d (c :: l) := by
  rw [listing_cons c l]
  split
  · exact List.prefix_append _ _
  · exact List.prefix_refl _

theorem mem_listing_one {c : Nat} {p : Nat × Nat} : p ∈ V.listing d [c] ↔
    p.1 = c ∧ p.2 < V.slots ∧ ∀ i, i ≤ p.2 → (V.slot d c i).isEnd = false := by
  unfold listing slotsOf
  rw [List.flatMap_cons, List.flatMap_nil, List.append_nil, List.takeWhile_map, List.mem_map]
  simp only [mem_takeWhile_range, Function.comp_apply, Bool.not_eq_true']
  constructor
  · rintro ⟨j, hj, rfl⟩
    exact ⟨rfl, hj⟩
  · rintro ⟨rfl, hj⟩
    exact ⟨p.2, hj, rfl⟩

end Volume

/-! ## Searches of the listing -/

theorem find?_takeWhile {α : Type} (p q : α → Bool) (l : List α) :
    (l.takeWhile p).find? q = (l.find? fun a => !p a || q a).filter p := by
  induction l with
  | nil => rfl
  | cons a l ih =>
      rw [List.takeWhile_cons]
      cases hp : p a with
      | true =>
          rw [if_pos rfl, List.find?_cons, List.find?_cons, hp]
          cases hq : q a with
          | true => exact (Option.filter_some_pos hp).symm
          | false => simpa using ih
      | false =>
          rw [if_neg (by decide), List.find?_cons, hp]
          exact (Option.filter_some_neg hp).symm

theorem find?_takeWhile_range {p q : Nat → Bool} {n j : Nat} :
    ((List.range n).takeWhile p).find? q = some j ↔
      j < n ∧ (p j = true ∧ q j = true) ∧ ∀ i, i < j → p i = true ∧ q i = false := by
  rw [find?_takeWhile, Option.filter_eq_some_iff, List.find?_range_eq_some, List.mem_range]
  constructor
  · rintro ⟨⟨h1, h2, h3⟩, h4⟩
    refine ⟨h2, ⟨h4, by simpa [h4] using h1⟩, fun i hi => ?_⟩
    simpa using h3 i hi
  · rintro ⟨h1, ⟨h2, h3⟩, h4⟩
    refine ⟨⟨by simp [h3], h1, fun i hi => ?_⟩, h2⟩
    obtain ⟨h5, h6⟩ := h4 i hi
    simp [h5, h6]

namespace Volume

variable (V : Volume) (d : Disk) (skip accept : DirEntry → Bool)

/-- The first slot that a search of the clusters `l` takes. -/
def firstOf (l : List Nat) : Option (Nat × Nat) :=
  (V.listing d l).find? fun p => !skip (V.entryIn d p) && accept (V.entryIn d p)

variable {V d skip accept}

theorem firstOf_eq_none {l : List Nat} : V.firstOf d skip accept l = none ↔
    ∀ p ∈ V.listing d l, skip (V.entryIn d p) = false → accept (V.entryIn d p) = false := by
  unfold firstOf
  rw [List.find?_eq_none]
  simp

theorem firstOf_cons (c : Nat) (l : List Nat) : V.firstOf d skip accept (c :: l)
    = (V.firstOf d skip accept [c]).or (if V.full d c then V.firstOf d skip accept l else none) := by
  unfold firstOf
  rw [listing_cons c l]
  split
  · rw [List.find?_append]
  · rw [Option.or_none]

/-- In one cluster it is the entry that a scan returns. -/
theorem firstOf_one_eq_some {c : Nat} {p : Nat × Nat} : V.firstOf d skip accept [c] = some p ↔
    p.1 = c ∧ FirstTaken skip accept (V.slot d c) V.slots p.2 := by
  have hiff : ∀ j, ((List.range V.slots).takeWhile fun j => !(V.slot d c j).isEnd).find?
      (fun j => !skip (V.slot d c j) && accept (V.slot d c j)) = some j ↔
        FirstTaken skip accept (V.slot d c) V.slots j := by
    intro j
    rw [find?_takeWhile_range]
    constructor
    · rintro ⟨h1, ⟨h2, h3⟩, h4⟩
      refine ⟨h1, fun i hi => ?_, by simpa using h2, by simpa using h3⟩
      obtain ⟨h5, h6⟩ := h4 i hi
      exact ⟨by simpa using h5, fun hskip => by simpa [hskip] using h6⟩
    · intro h
      refine ⟨h.lt, ⟨by simp [h.taken.1], by simp [h.taken.2.1, h.taken.2.2]⟩, fun i hi => ?_⟩
      obtain ⟨h5, h6⟩ := h.passed i hi
      refine ⟨by simp [h5], ?_⟩
      cases hskip : skip (V.slot d c i) with
      | true => rfl
      | false => simp [h6 hskip]
  unfold firstOf listing slotsOf
  rw [List.flatMap_cons, List.flatMap_nil, List.append_nil, List.takeWhile_map, List.find?_map,
    Option.map_eq_some_iff]
  constructor
  · rintro ⟨j, hj, rfl⟩
    exact ⟨rfl, (hiff j).mp hj⟩
  · rintro ⟨rfl, hp⟩
    exact ⟨p.2, (hiff p.2).mpr hp, rfl⟩

end Volume

/-! ## The functions -/

section functions

variable {V : Volume} {s : Fs} {e : Env}

/-- The first cluster that a slot has, or the marker for none. -/
def startOr (V : Volume) (d : Disk) : Option (Nat × Nat) → Nat
  | some p => readStartCluster (V.entryIn d p)
  | none => invalidCluster

theorem findIn_listing (h : s.On V) {c : Nat} (hc : V.Has c) (dirName : List UInt8) :
    match s.findIn dirName c with
    | .found x => ∃ p, V.firstOf s.disk skipDeletedLfn (Fs.isDirNamed dirName) [c] = some p ∧
        x = V.entryIn s.disk p
    | .ended => V.firstOf s.disk skipDeletedLfn (Fs.isDirNamed dirName) [c] = none ∧
        V.full s.disk c = false
    | .more => V.firstOf s.disk skipDeletedLfn (Fs.isDirNamed dirName) [c] = none ∧
        V.full s.disk c = true := by
  have hslot : ∀ i, i < s.slotCount → s.dirSlot c i = V.slot s.disk c i := by
    intro i hi
    rw [slotCount_eq h] at hi
    exact dirSlot_eq h hc hi
  -- what was passed up to the end marker has no match
  have hnone : ∀ j, j ≤ s.slotCount → (∀ i, i < j →
      Passed skipDeletedLfn (Fs.isDirNamed dirName) (s.dirSlot c i)) →
      (j < s.slotCount → (s.dirSlot c j).isEnd = true) →
      V.firstOf s.disk skipDeletedLfn (Fs.isDirNamed dirName) [c] = none := by
    intro j hj hpassed hend
    rw [Volume.firstOf_eq_none]
    intro p hp hskip
    obtain ⟨rfl, hlt, hbefore⟩ := Volume.mem_listing_one.mp hp
    rw [← slotCount_eq h] at hlt
    have hpj : p.2 < j := by
      by_contra hge
      have h1 := hbefore j (by omega)
      rw [← hslot j (by omega), hend (by omega)] at h1
      cases h1
    have := hpassed p.2 hpj
    rw [hslot p.2 hlt] at this
    exact this.2 hskip
  have hscan := findIn_spec s dirName c
  revert hscan
  cases s.findIn dirName c with
  | found x =>
      rintro ⟨j, hj, rfl⟩
      have hlt := hj.lt
      refine ⟨(c, j), Volume.firstOf_one_eq_some.mpr ⟨rfl, ?_⟩, hslot j hlt⟩
      rw [slotCount_eq h] at hj
      exact hj.congr fun i hi => (hslot i (by omega)).symm
  | ended =>
      rintro ⟨j, hj, hend, hpassed⟩
      refine ⟨hnone j (by omega) hpassed fun _ => hend, ?_⟩
      rw [← Bool.not_eq_true, Volume.full_iff]
      intro hfull
      rw [hslot j hj, hfull j (by rwa [← slotCount_eq h])] at hend
      cases hend
  | more =>
      intro hpassed
      refine ⟨hnone s.slotCount (Nat.le_refl _) hpassed fun hlt => absurd hlt (by omega), ?_⟩
      rw [Volume.full_iff]
      intro j hj
      rw [← slotCount_eq h] at hj
      rw [← hslot j hj]
      exact (hpassed j hj).1

/-- **`find_next_cluster`** on a well-formed chain. -/
theorem searchFrom_chain (h : s.On V) (dirName : List UInt8) {c : Nat} {l : List Nat}
    (hl : V.Chain s.disk c l) {k : Nat} (hk : l.length ≤ k) :
    s.searchFrom dirName k c
      = some (startOr V s.disk (V.firstOf s.disk skipDeletedLfn (Fs.isDirNamed dirName) l)) := by
  induction hl generalizing k with
  | @last c hs =>
      obtain ⟨hc, hend⟩ := Volume.link_eq_stop hs
      obtain ⟨k, rfl⟩ := Nat.exists_eq_add_of_le' hk
      have hnext : s.nextCluster c = invalidCluster := by
        rw [nextCluster_eq h hc, nextOf, if_pos hend]
      have hfind := findIn_listing h hc dirName
      rw [List.length_singleton, Fs.searchFrom]
      revert hfind
      cases s.findIn dirName c with
      | found x =>
          rintro ⟨p, hp, rfl⟩
          rw [hp]
          rfl
      | ended =>
          rintro ⟨hp, -⟩
          rw [hp]
          rfl
      | more =>
          rintro ⟨hp, -⟩
          dsimp only
          rw [hp, hnext, if_neg (by decide)]
          rfl
  | @cons c c' l hn hl ih =>
      obtain ⟨hc, hfat, hlt, -⟩ := Volume.link_eq_next hn
      obtain ⟨k, rfl⟩ := Nat.exists_eq_add_of_le' hk
      have hnext : s.nextCluster c = c' := by
        rw [nextCluster_eq h hc, nextOf, hfat, if_neg (by omega)]
      have hfind := findIn_listing h hc dirName
      rw [List.length_cons, ← Nat.add_assoc, Fs.searchFrom, Volume.firstOf_cons]
      revert hfind
      cases s.findIn dirName c with
      | found x =>
          rintro ⟨p, hp, rfl⟩
          rw [hp]
          rfl
      -- the end marker stops both: the search, and the listing behind this cluster
      | ended =>
          rintro ⟨hp, hfull⟩
          rw [hp, hfull]
          rfl
      | more =>
          rintro ⟨hp, hfull⟩
          dsimp only
          rw [hp, hfull, hnext, if_pos hlt, if_pos rfl, Option.none_or]
          exact ih (by omega)

end functions

end MicroKernel.Fat32
