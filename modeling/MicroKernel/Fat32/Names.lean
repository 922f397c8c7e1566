import Mathlib.Data.List.GetD
import Mathlib.Data.List.TakeWhile
import MicroKernel.Fat32.Entry

set_option autoImplicit false

/-! # Names that match

`compare_names` compares the eleven characters of an entry with a string, and
`convert_to_83_format` makes eleven characters of a string. `compareNames_iff` says what the two
loops of the first test, and `compareNames_convert_iff` which strings match the characters that
the second makes of them.
-/

namespace MicroKernel.Fat32

open MicroKernel.Lib Bytes

/-! ## The characters of a string -/

/-- The string in memory: the characters before the terminating zero. -/
def cString (nm : List UInt8) : List UInt8 := nm.takeWhile (· ≠ 0)

/-- What the first loop of `compare_names` may look at: the characters before the first dot. -/
def baseOf (nm : List UInt8) : List UInt8 := (cString nm).takeWhile (· ≠ 0x2E)

/-- What the second loop looks at: the characters behind the dot, and without a dot among the
first nine characters everything behind the first eight. -/
def restOf (nm : List UInt8) : List UInt8 :=
  if (baseOf nm).length ≤ 8 then (cString nm).drop ((baseOf nm).length + 1)
  else (cString nm).drop 8

section string

variable {nm : List UInt8} {k : Nat}

theorem getD_takeWhile {p : UInt8 → Bool} {l : List UInt8} (hk : k < (l.takeWhile p).length) :
    (l.takeWhile p).getD k 0 = l.getD k 0 ∧ p (l.getD k 0) = true := by
  have heq : (l.takeWhile p).getD k 0 = l.getD k 0 := by
    calc (l.takeWhile p).getD k 0
        = (l.takeWhile p ++ l.dropWhile p).getD k 0 := (List.getD_append _ _ _ _ hk).symm
      _ = l.getD k 0 := by rw [List.takeWhile_append_dropWhile]
  refine ⟨heq, ?_⟩
  rw [← heq, List.getD_eq_getElem _ _ hk]
  exact List.mem_takeWhile_imp (List.getElem_mem hk)

theorem getD_length_takeWhile (p : UInt8 → Bool) (l : List UInt8) :
    l.getD (l.takeWhile p).length 0 = 0 ∨ p (l.getD (l.takeWhile p).length 0) = false := by
  induction l with
  | nil => exact Or.inl rfl
  | cons c l ih =>
      rw [List.takeWhile_cons]
      by_cases hc : p c = true
      · rw [if_pos hc]
        exact ih
      · rw [if_neg hc]
        exact Or.inr (by simpa using hc)

theorem cString_getD (hk : k < (cString nm).length) :
    (cString nm).getD k 0 = nm.getD k 0 ∧ nm.getD k 0 ≠ 0 := by
  obtain ⟨h1, h2⟩ := getD_takeWhile hk
  exact ⟨h1, by simpa using h2⟩

theorem getD_length_cString (nm : List UInt8) : nm.getD (cString nm).length 0 = 0 := by
  rcases getD_length_takeWhile (· ≠ 0) nm with h | h
  · exact h
  · exact not_not.mp (of_decide_eq_false h)

theorem length_baseOf_le (nm : List UInt8) : (baseOf nm).length ≤ (cString nm).length :=
  (List.takeWhile_sublist _).length_le

theorem baseOf_getD (hk : k < (baseOf nm).length) :
    (baseOf nm).getD k 0 = nm.getD k 0 ∧ nm.getD k 0 ≠ 0 ∧ nm.getD k 0 ≠ 0x2E := by
  obtain ⟨h1, h2⟩ := getD_takeWhile hk
  obtain ⟨h3, h4⟩ := cString_getD (Nat.lt_of_lt_of_le hk (length_baseOf_le nm))
  rw [h3] at h1 h2
  exact ⟨h1, h4, by simpa using h2⟩

/-- Behind the base the string ends or has a dot. -/
theorem getD_length_baseOf (nm : List UInt8) :
    ((baseOf nm).length = (cString nm).length ∧ nm.getD (baseOf nm).length 0 = 0) ∨
      ((baseOf nm).length < (cString nm).length ∧ nm.getD (baseOf nm).length 0 = 0x2E) := by
  rcases Nat.lt_or_eq_of_le (length_baseOf_le nm) with hlt | heq
  · right
    obtain ⟨h3, h4⟩ := cString_getD hlt
    rcases getD_length_takeWhile (· ≠ 0x2E) (cString nm) with h | h
    · exact absurd (h3.symm.trans h) h4
    · exact ⟨hlt, h3.symm.trans (not_not.mp (of_decide_eq_false h))⟩
  · left
    refine ⟨heq, ?_⟩
    rw [heq]
    exact getD_length_cString nm

/-- Where the second loop of `compare_names` starts. -/
def restStart (nm : List UInt8) : Nat :=
  if nm.getD (min 8 (baseOf nm).length) 0 = 0x2E then min 8 (baseOf nm).length + 1
  else min 8 (baseOf nm).length

theorem restStart_spec (nm : List UInt8) :
    restStart nm ≤ (cString nm).length ∧ restOf nm = (cString nm).drop (restStart nm) := by
  have hle := length_baseOf_le nm
  unfold restStart restOf
  by_cases h8 : (baseOf nm).length ≤ 8
  · rw [if_pos h8, Nat.min_eq_right h8]
    rcases getD_length_baseOf nm with ⟨heq, h0⟩ | ⟨hlt, hdot⟩
    · rw [h0, if_neg (by decide), List.drop_of_length_le (by omega),
        List.drop_of_length_le (by omega)]
      exact ⟨hle, rfl⟩
    · rw [if_pos hdot]
      exact ⟨hlt, rfl⟩
  · have hlong : 8 < (baseOf nm).length := by omega
    obtain ⟨-, -, hdot⟩ := baseOf_getD hlong
    rw [if_neg h8, Nat.min_eq_left (by omega), if_neg hdot]
    exact ⟨by omega, rfl⟩

theorem restOf_getD (hk : k < (restOf nm).length) :
    nm.getD (restStart nm + k) 0 = (restOf nm).getD k 0 ∧ nm.getD (restStart nm + k) 0 ≠ 0 := by
  obtain ⟨hle, heq⟩ := restStart_spec nm
  rw [heq, List.length_drop] at hk
  have hlt : restStart nm + k < (cString nm).length := by omega
  obtain ⟨h1, h2⟩ := cString_getD hlt
  refine ⟨?_, h2⟩
  rw [heq, ← h1, List.getD_eq_getElem?_getD, List.getD_eq_getElem?_getD, List.getElem?_drop]

theorem getD_length_restOf (nm : List UInt8) :
    nm.getD (restStart nm + (restOf nm).length) 0 = 0 := by
  obtain ⟨hle, heq⟩ := restStart_spec nm
  rw [heq, List.length_drop, Nat.add_sub_cancel' hle]
  exact getD_length_cString nm

end string

/-! ## `compare_names` -/

/-- The `n` characters from `i` on are those of `part` up to case, filled up with spaces. -/
structure PartMatches (fatName : Nat → UInt8) (i n : Nat) (part : List UInt8) : Prop where
  equal : ∀ k, k < n → k < part.length → toupper (fatName (i + k)) = toupper (part.getD k 0)
  blank : ∀ k, k < n → part.length ≤ k → fatName (i + k) = 0x20

section compare

variable {fatName str : Nat → UInt8} {nm : List UInt8}

theorem partMatches_nil_succ {i n : Nat} :
    PartMatches fatName i (n + 1) [] ↔ fatName i = 0x20 ∧ PartMatches fatName (i + 1) n [] := by
  constructor
  · intro h
    refine ⟨h.blank 0 (by omega) (Nat.le_refl 0), fun k _ hk => absurd hk (by simp), ?_⟩
    intro k hk _
    rw [Nat.add_assoc, Nat.add_comm 1 k]
    exact h.blank (k + 1) (by omega) (Nat.zero_le _)
  · rintro ⟨h0, h⟩
    refine ⟨fun k _ hk => absurd hk (by simp), ?_⟩
    intro k hk _
    cases k with
    | zero => exact h0
    | succ k =>
        rw [Nat.add_comm k 1, ← Nat.add_assoc]
        exact h.blank k (by omega) (Nat.zero_le k)

theorem partMatches_cons_succ {i n : Nat} {c : UInt8} {part : List UInt8} :
    PartMatches fatName i (n + 1) (c :: part) ↔
      toupper (fatName i) = toupper c ∧ PartMatches fatName (i + 1) n part := by
  have hi : ∀ k, i + 1 + k = i + (k + 1) := by omega
  constructor
  · intro h
    refine ⟨h.equal 0 (by omega) (by simp), ?_, ?_⟩
    · intro k hk hlt
      rw [hi]
      exact h.equal (k + 1) (by omega) (by simpa using hlt)
    · intro k hk hle
      rw [hi]
      exact h.blank (k + 1) (by omega) (by simpa using hle)
  · rintro ⟨h0, h⟩
    constructor
    · intro k hk hlt
      cases k with
      | zero => exact h0
      | succ k =>
          rw [← hi]
          exact h.equal k (by omega) (by simpa using hlt)
    · intro k hk hle
      cases k with
      | zero => exact absurd hle (by simp)
      | succ k =>
          rw [← hi]
          exact h.blank k (by omega) (by simpa using hle)

/-- Both loops of `compare_names`: they differ in where they take the string to stop. -/
def comparePart (stop : UInt8 → Bool) (fatName str : Nat → UInt8) : Nat → Nat → Nat → Option Nat
  | 0, _, j => some j
  | n + 1, i, j =>
      if stop (str j) then
        if fatName i ≠ 0x20 then none else comparePart stop fatName str n (i + 1) j
      else if toupper (fatName i) ≠ toupper (str j) then none
      else comparePart stop fatName str n (i + 1) (j + 1)

theorem compareBase_eq_comparePart (n i j : Nat) :
    compareBase fatName str n i j = comparePart (fun c => c = 0 ∨ c = 0x2E) fatName str n i j := by
  induction n generalizing i j with
  | zero => rfl
  | succ n ih =>
      rw [compareBase, comparePart, ih, ih]
      simp only [decide_eq_true_eq]

theorem compareExtension_eq_comparePart (n i j : Nat) :
    compareExtension fatName str n i j = comparePart (fun c => c = 0) fatName str n i j := by
  induction n generalizing i j with
  | zero => rfl
  | succ n ih =>
      rw [compareExtension, comparePart, ih, ih]
      simp only [decide_eq_true_eq]

/-- One loop, on a string whose characters from `j` on are those of `part` and then one at which
the loop takes it to stop. -/
theorem comparePart_eq_some_iff {stop : UInt8 → Bool} {n i j j' : Nat} (part : List UInt8)
    (hpart : ∀ k, k < part.length → str (j + k) = part.getD k 0 ∧ stop (str (j + k)) = false)
    (hstop : stop (str (j + part.length)) = true) :
    comparePart stop fatName str n i j = some j' ↔
      PartMatches fatName i n part ∧ j' = j + min n part.length := by
  induction n generalizing i j part with
  | zero =>
      rw [comparePart, Option.some.injEq]
      constructor
      · rintro rfl
        exact ⟨⟨fun k hk => absurd hk (by omega), fun k hk => absurd hk (by omega)⟩, by simp⟩
      · rintro ⟨-, rfl⟩
        simp
  | succ n ih =>
      rw [comparePart]
      cases part with
      | nil =>
          -- the string has stopped: the rest is to be blank
          have hstop' : stop (str j) = true := hstop
          rw [if_pos hstop', partMatches_nil_succ]
          by_cases h0 : fatName i = 0x20
          · rw [if_neg (by simpa using h0), ih [] hpart hstop]
            simp [h0]
          · rw [if_pos h0]
            simp [h0]
      | cons c part =>
          obtain ⟨hc, hgo⟩ := hpart 0 (by simp)
          rw [Nat.add_zero] at hc hgo
          have hc' : str j = c := hc
          rw [if_neg (by simp [hgo]), partMatches_cons_succ, hc']
          have hj : ∀ k, j + 1 + k = j + (k + 1) := by omega
          by_cases h0 : toupper (fatName i) = toupper c
          · rw [if_neg (by simpa using h0), ih part]
            · simp only [h0, true_and, List.length_cons]
              have hlen : j + 1 + min n part.length = j + min (n + 1) (part.length + 1) := by omega
              rw [hlen]
            · intro k hk
              rw [hj]
              exact hpart (k + 1) (by simpa using hk)
            · rw [hj]
              exact hstop
          · rw [if_pos h0]
            simp [h0]

theorem compareBase_eq_some_iff {j' : Nat} :
    compareBase fatName (fun j => nm.getD j 0) 8 0 0 = some j' ↔
      PartMatches fatName 0 8 (baseOf nm) ∧ j' = min 8 (baseOf nm).length := by
  rw [compareBase_eq_comparePart, comparePart_eq_some_iff (baseOf nm), Nat.zero_add]
  · intro k hk
    obtain ⟨h1, h2, h3⟩ := baseOf_getD hk
    rw [Nat.zero_add]
    exact ⟨h1.symm, decide_eq_false fun h => h.elim h2 h3⟩
  · rw [Nat.zero_add]
    rcases getD_length_baseOf nm with ⟨-, h⟩ | ⟨-, h⟩
    · exact decide_eq_true (Or.inl h)
    · exact decide_eq_true (Or.inr h)

theorem compareExtension_eq_some_iff {j' : Nat} :
    compareExtension fatName (fun j => nm.getD j 0) 3 8 (restStart nm) = some j' ↔
      PartMatches fatName 8 3 (restOf nm) ∧ j' = restStart nm + min 3 (restOf nm).length := by
  rw [compareExtension_eq_comparePart, comparePart_eq_some_iff (restOf nm)]
  · intro k hk
    obtain ⟨h1, h2⟩ := restOf_getD hk
    exact ⟨h1, decide_eq_false h2⟩
  · exact decide_eq_true (getD_length_restOf nm)

/-- **`compare_names`**: the base and what is behind it are compared one after the other, and
nothing of the string may be left over. -/
theorem compareNames_iff : compareNames fatName nm = true ↔
    PartMatches fatName 0 8 (baseOf nm) ∧ PartMatches fatName 8 3 (restOf nm) ∧ (restOf nm).length ≤ 3 := by
  unfold compareNames
  dsimp only
  cases hb : compareBase fatName (fun j => nm.getD j 0) 8 0 0 with
  | none =>
      have hno : ¬ PartMatches fatName 0 8 (baseOf nm) := by
        intro h
        have hsome := compareBase_eq_some_iff.mpr ⟨h, rfl⟩
        rw [hb] at hsome
        cases hsome
      simp [hno]
  | some j =>
      obtain ⟨hbase, rfl⟩ := compareBase_eq_some_iff.mp hb
      dsimp only
      rw [← restStart]
      cases hx : compareExtension fatName (fun j => nm.getD j 0) 3 8 (restStart nm) with
      | none =>
          have hno : ¬ PartMatches fatName 8 3 (restOf nm) := by
            intro h
            have hsome := compareExtension_eq_some_iff.mpr ⟨h, rfl⟩
            rw [hx] at hsome
            cases hsome
          simp [hno]
      | some j' =>
          obtain ⟨hrest, rfl⟩ := compareExtension_eq_some_iff.mp hx
          dsimp only
          rw [beq_iff_eq]
          simp only [hbase, hrest, true_and]
          -- the string ends here only when nothing of it is left
          constructor
          · intro h0
            by_contra hlt
            rw [Nat.min_eq_left (by omega)] at h0
            exact (restOf_getD (by omega)).2 h0
          · intro hle
            rw [Nat.min_eq_right hle]
            exact getD_length_restOf nm

/-- Two names that differ at most in case. -/
def SameName (a b : Nat → UInt8) : Prop := ∀ k, k < 11 → toupper (a k) = toupper (b k)

theorem PartMatches.same {a b : Nat → UInt8} {i n : Nat} {part : List UInt8} (ha : PartMatches a i n part)
    (hb : PartMatches b i n part) {k : Nat} (hk : k < n) : toupper (a (i + k)) = toupper (b (i + k)) := by
  rcases Nat.lt_or_ge k part.length with hlt | hle
  · rw [ha.equal k hk hlt, hb.equal k hk hlt]
  · rw [ha.blank k hk hle, hb.blank k hk hle]

/-- A string matches one name only, up to case. -/
theorem sameName_of_compareNames {a b : Nat → UInt8} (ha : compareNames a nm = true)
    (hb : compareNames b nm = true) : SameName a b := by
  obtain ⟨ha1, ha2, -⟩ := compareNames_iff.mp ha
  obtain ⟨hb1, hb2, -⟩ := compareNames_iff.mp hb
  intro k hk
  rcases Nat.lt_or_ge k 8 with hlt | hle
  · have h := ha1.same hb1 hlt
    rwa [Nat.zero_add] at h
  · have h := ha2.same hb2 (k := k - 8) (by omega)
    rwa [Nat.add_sub_cancel' hle] at h

theorem PartMatches.congr {a b : Nat → UInt8} {i i' n : Nat} {part : List UInt8}
    (h : ∀ k, k < n → a (i + k) = b (i' + k)) (ha : PartMatches a i n part) : PartMatches b i' n part :=
  ⟨fun k hk hlt => by rw [← h k hk, ha.equal k hk hlt],
    fun k hk hle => by rw [← h k hk, ha.blank k hk hle]⟩

theorem partMatches_congr {a b : Nat → UInt8} {i i' n : Nat} {part : List UInt8}
    (h : ∀ k, k < n → a (i + k) = b (i' + k)) : PartMatches a i n part ↔ PartMatches b i' n part :=
  ⟨PartMatches.congr h, PartMatches.congr fun k hk => (h k hk).symm⟩

/-- Only the eleven characters count. -/
theorem compareNames_congr {a b : Nat → UInt8} (h : ∀ k, k < 11 → a k = b k) (nm : List UInt8) :
    compareNames a nm = compareNames b nm := by
  have hpart : ∀ i n part, i + n ≤ 11 → (PartMatches a i n part ↔ PartMatches b i n part) := by
    intro i n part hn
    apply partMatches_congr
    intro k hk
    exact h _ (by omega)
  rw [Bool.eq_iff_iff, compareNames_iff, compareNames_iff, hpart 0 8 _ (by omega),
    hpart 8 3 _ (by omega)]

end compare

/-! ## `convert_to_83_format` -/

section convert

theorem toupper_toupper (c : UInt8) : toupper (toupper c) = toupper c := by
  have h1 := toupper_toNat c
  have h2 := toupper_toNat (toupper c)
  apply UInt8.toNat_inj.mp
  rw [h2, if_neg]
  rw [h1]
  split <;> omega

theorem toupper_eq_iff {c x : UInt8} (hx : x.toNat < 0x41) : toupper c = x ↔ c = x := by
  have h := toupper_toNat c
  constructor
  · rintro rfl
    apply UInt8.toNat_inj.mp
    rw [h] at hx ⊢
    split at hx
    · omega
    next hn => rw [if_neg hn]
  · rintro rfl
    apply UInt8.toNat_inj.mp
    rw [h, if_neg (by omega)]

theorem isalnum_of_toupper_eq {c x : UInt8} (hc : isalnum c = true)
    (h : toupper x = toupper c) : isalnum x = true := by
  have h1 := toupper_toNat c
  have h2 := toupper_toNat x
  rw [isalnum_iff] at hc ⊢
  rw [h, h1] at h2
  split at h2 <;> split at h2 <;> omega

/-- Letters and digits, and nothing but spaces behind them. -/
def IsPlain (part : List UInt8) : Prop := ∀ c ∈ part.dropWhile isalnum, c = 0x20

instance (part : List UInt8) : Decidable (IsPlain part) :=
  inferInstanceAs (Decidable (∀ c ∈ part.dropWhile isalnum, c = 0x20))

/-- The character at `k` of a part of a converted name. -/
def partChar (n : Nat) (part : List UInt8) (k : Nat) : UInt8 := (namePart n part).getD k 0x20

theorem partChar_nil (n k : Nat) : partChar n [] k = 0x20 := by
  unfold partChar namePart
  simp

theorem partChar_alnum {n : Nat} {c : UInt8} (part : List UInt8) (hc : isalnum c = true) (k : Nat) :
    partChar (n + 1) (c :: part) k = if k = 0 then toupper c else partChar n part (k - 1) := by
  unfold partChar namePart
  rw [List.filter_cons_of_pos hc, List.map_cons, List.take_succ_cons]
  cases k with
  | zero => rfl
  | succ k => rfl

theorem partChar_other {n : Nat} {c : UInt8} (part : List UInt8) (hc : isalnum c = false)
    (k : Nat) : partChar n (c :: part) k = partChar n part k := by
  unfold partChar namePart
  rw [List.filter_cons_of_neg (by simp [hc])]

theorem partChar_cases (n : Nat) (part : List UInt8) (k : Nat) :
    partChar n part k = 0x20 ∨ ∃ c, isalnum c = true ∧ partChar n part k = toupper c :=
  namePart_getD part k

theorem toupper_ne_space {c : UInt8} (hc : isalnum c = true) : toupper c ≠ 0x20 := by
  intro h
  rw [(toupper_eq_iff (by decide)).mp h] at hc
  exact absurd hc (by decide)

/-- Nothing is copied when the first character is a space. -/
theorem partChar_of_zero {n : Nat} {part : List UInt8} (h : partChar (n + 1) part 0 = 0x20)
    (m k : Nat) : partChar m part k = 0x20 := by
  induction part with
  | nil => exact partChar_nil m k
  | cons c part ih =>
      cases hc : isalnum c with
      | true =>
          rw [partChar_alnum part hc, if_pos rfl] at h
          exact absurd h (toupper_ne_space hc)
      | false =>
          rw [partChar_other part hc] at h ⊢
          exact ih h

theorem partChar_of_blank {n : Nat} {part : List UInt8} (h : ∀ c ∈ part, c = 0x20) (k : Nat) :
    partChar n part k = 0x20 := by
  induction part with
  | nil => exact partChar_nil n k
  | cons c part ih =>
      have hc : isalnum c = false := by
        rw [h c List.mem_cons_self]
        decide
      rw [partChar_other part hc]
      exact ih fun c hc => h c (List.mem_cons_of_mem _ hc)

theorem mem_getD {part : List UInt8} {k : Nat} (hk : k < part.length) : part.getD k 0 ∈ part := by
  rw [List.getD_eq_getElem _ _ hk]
  exact List.getElem_mem hk

theorem isPlain_cons_alnum {c : UInt8} {part : List UInt8} (hc : isalnum c = true) :
    IsPlain (c :: part) ↔ IsPlain part := by
  unfold IsPlain
  rw [List.dropWhile_cons_of_pos hc]

theorem isPlain_cons_other {c : UInt8} {part : List UInt8} (hc : isalnum c = false) :
    IsPlain (c :: part) ↔ ∀ x ∈ c :: part, x = 0x20 := by
  unfold IsPlain
  rw [List.dropWhile_cons_of_neg (by simp [hc])]

/-- A plain part is copied as it is. -/
theorem IsPlain.partMatches {part : List UInt8} (h : IsPlain part) (n : Nat) :
    PartMatches (partChar n part) 0 n part := by
  induction part generalizing n with
  | nil => exact ⟨fun k _ hk => absurd hk (by simp), fun k _ _ => partChar_nil n _⟩
  | cons c part ih =>
      cases hc : isalnum c with
      | true =>
          cases n with
          | zero => exact ⟨fun k hk => absurd hk (by omega), fun k hk => absurd hk (by omega)⟩
          | succ n =>
              rw [partMatches_cons_succ, partChar_alnum part hc, if_pos rfl]
              refine ⟨toupper_toupper c, (ih ((isPlain_cons_alnum hc).mp h) n).congr fun k _ => ?_⟩
              rw [partChar_alnum part hc, if_neg (by omega)]
              congr 1
              omega
      | false =>
          have hall := (isPlain_cons_other hc).mp h
          constructor
          · intro k _ hk
            rw [partChar_of_blank hall, hall _ (mem_getD hk)]
          · intro k _ _
            exact partChar_of_blank hall _

/-- A part whose copy agrees with it is plain, when what there is no room for are spaces. -/
theorem isPlain_of_partMatches {part : List UInt8} {n : Nat} (h : PartMatches (partChar n part) 0 n part)
    (hrest : ∀ k, n ≤ k → k < part.length → part.getD k 0 = 0x20) : IsPlain part := by
  induction part generalizing n with
  | nil => exact fun c hc => absurd hc (by simp)
  | cons c part ih =>
      cases hc : isalnum c with
      | true =>
          cases n with
          | zero =>
              rw [show c = 0x20 from hrest 0 (Nat.le_refl 0) (by simp)] at hc
              exact absurd hc (by decide)
          | succ n =>
              rw [isPlain_cons_alnum hc]
              apply ih (n := n)
              · refine (partMatches_cons_succ.mp h).2.congr fun k _ => ?_
                rw [partChar_alnum part hc, if_neg (by omega)]
                congr 1
                omega
              · intro k hk hlt
                exact hrest (k + 1) (by omega) (by simpa using hlt)
      | false =>
          rw [isPlain_cons_other hc]
          -- nothing is copied: a letter in the place of `c` would not agree with it
          have hblank : ∀ k, k < n → partChar n (c :: part) k = 0x20 := by
            cases n with
            | zero => exact fun k hk => absurd hk (by omega)
            | succ n =>
                have h0 := (partMatches_cons_succ.mp h).1
                rcases partChar_cases (n + 1) (c :: part) 0 with h1 | ⟨d, hd, h1⟩
                · exact fun k _ => partChar_of_zero h1 _ _
                · rw [h1, toupper_toupper] at h0
                  rw [isalnum_of_toupper_eq hd h0.symm] at hc
                  cases hc
          intro x hx
          obtain ⟨k, hk, rfl⟩ := List.getElem_of_mem hx
          rw [← List.getD_eq_getElem _ 0 hk]
          rcases Nat.lt_or_ge k n with hlt | hle
          · have heq := h.equal k hlt hk
            rw [Nat.zero_add, hblank k hlt] at heq
            exact (toupper_eq_iff (by decide)).mp heq.symm
          · exact hrest k hle hk

/-- The string is a name that keeps all its characters in the 8.3 form: a base and an extension of
letters and digits, each with spaces behind it at most, that have room. -/
def Fits83 (nm : List UInt8) : Prop :=
  if 0x2E ∈ cString nm then
    cString nm ≠ [0x2E] ∧ IsPlain (baseOf nm) ∧ (baseOf nm).length ≤ 8 ∧
      IsPlain ((cString nm).drop ((baseOf nm).length + 1)) ∧
      ((cString nm).drop ((baseOf nm).length + 1)).length ≤ 3
  else IsPlain (cString nm) ∧ ((cString nm).takeWhile isalnum).length ≤ 8 ∧
    (cString nm).length ≤ 11

instance (nm : List UInt8) : Decidable (Fits83 nm) :=
  inferInstanceAs (Decidable (ite _ _ _))

theorem dropWhile_eq_drop (p : UInt8 → Bool) (l : List UInt8) :
    l.dropWhile p = l.drop (l.takeWhile p).length := by
  calc l.dropWhile p
      = (l.takeWhile p ++ l.dropWhile p).drop (l.takeWhile p).length := List.drop_left.symm
    _ = l.drop (l.takeWhile p).length := by rw [List.takeWhile_append_dropWhile]

/-- `convert_to_83_format`, but for the names of the two dot entries. -/
theorem convertTo83Format_eq {nm : List UInt8} (h1 : cString nm ≠ [0x2E])
    (h2 : cString nm ≠ [0x2E, 0x2E]) (i : Nat) : convertTo83Format nm i
      = if i < 8 then partChar 8 (baseOf nm) i
        else partChar 3 ((cString nm).drop ((baseOf nm).length + 1)) (i - 8) := by
  unfold convertTo83Format
  dsimp only
  change (if cString nm = [0x2E] then _ else if cString nm = [0x2E, 0x2E] then _ else _ : Nat → UInt8) i = _
  rw [if_neg h1, if_neg h2, dropWhile_eq_drop, List.drop_drop]
  rfl

theorem mem_cString_dot_iff {nm : List UInt8} :
    0x2E ∈ cString nm ↔ (baseOf nm).length < (cString nm).length := by
  constructor
  · intro hmem
    refine Nat.lt_of_le_of_ne (length_baseOf_le nm) fun heq => ?_
    have hbase : baseOf nm = cString nm := (List.takeWhile_sublist _).eq_of_length heq
    rw [← hbase] at hmem
    have := List.mem_takeWhile_imp hmem
    simp at this
  · intro hlt
    rcases getD_length_baseOf nm with ⟨heq, -⟩ | ⟨-, hdot⟩
    · omega
    · rw [← hdot, ← (cString_getD hlt).1]
      exact mem_getD hlt

theorem baseOf_eq_of_no_dot {nm : List UInt8} (h : 0x2E ∉ cString nm) : baseOf nm = cString nm := by
  rw [mem_cString_dot_iff] at h
  apply (List.takeWhile_sublist _).eq_of_length
  exact Nat.le_antisymm (length_baseOf_le nm) (Nat.le_of_not_lt h)

/-- The dot entries do not match their own names. -/
theorem compareNames_convert_dots {nm : List UInt8}
    (h : cString nm = [0x2E] ∨ cString nm = [0x2E, 0x2E]) :
    compareNames (convertTo83Format nm) nm = false ∧ ¬ Fits83 nm := by
  have hbase : baseOf nm = [] := by
    unfold baseOf
    rcases h with h | h
    · rw [h]
      rfl
    · rw [h]
      rfl
  have hzero : convertTo83Format nm 0 = 0x2E := by
    unfold convertTo83Format
    rcases h with h | h
    · unfold cString at h
      rw [h]
      rfl
    · unfold cString at h
      rw [h]
      rfl
  constructor
  · rw [← Bool.not_eq_true, compareNames_iff]
    rintro ⟨hb, -⟩
    have := hb.blank 0 (by omega) (by rw [hbase]; exact Nat.le_refl 0)
    rw [Nat.zero_add, hzero] at this
    exact absurd this (by decide)
  · unfold Fits83
    rw [hbase]
    rcases h with h | h
    · rw [h]
      decide
    · rw [h]
      decide +kernel

/-- A string with a base that has room. -/
theorem partMatches_short_iff {nm : List UInt8} (h1 : cString nm ≠ [0x2E])
    (hlen : (baseOf nm).length ≤ 8) :
    (PartMatches (partChar 8 (baseOf nm)) 0 8 (baseOf nm) ∧
      PartMatches (partChar 3 ((cString nm).drop ((baseOf nm).length + 1))) 0 3 (restOf nm) ∧
      (restOf nm).length ≤ 3) ↔ Fits83 nm := by
  unfold restOf Fits83
  rw [if_pos hlen]
  by_cases hdot : 0x2E ∈ cString nm
  · rw [if_pos hdot]
    constructor
    · rintro ⟨hb, hr, hl⟩
      exact ⟨h1, isPlain_of_partMatches hb fun k _ _ => by omega, hlen,
        isPlain_of_partMatches hr fun k _ _ => by omega, hl⟩
    · rintro ⟨-, hb, -, hr, hl⟩
      exact ⟨hb.partMatches 8, hr.partMatches 3, hl⟩
  · rw [if_neg hdot, baseOf_eq_of_no_dot hdot] at *
    have htake : ((cString nm).takeWhile isalnum).length ≤ (cString nm).length :=
      (List.takeWhile_sublist _).length_le
    have hnil : (cString nm).drop ((cString nm).length + 1) = [] :=
      List.drop_of_length_le (by omega)
    rw [hnil]
    constructor
    · rintro ⟨hb, -, -⟩
      exact ⟨isPlain_of_partMatches hb fun k _ _ => by omega, by omega, by omega⟩
    · rintro ⟨hb, -, -⟩
      refine ⟨hb.partMatches 8, ⟨fun k _ hk => absurd hk (by simp), fun k _ _ => partChar_nil 3 _⟩, ?_⟩
      simp

/-- A string with nine characters or more before a dot or its end. -/
theorem partMatches_long_iff {nm : List UInt8} (hlen : 8 < (baseOf nm).length) :
    (PartMatches (partChar 8 (baseOf nm)) 0 8 (baseOf nm) ∧
      PartMatches (partChar 3 ((cString nm).drop ((baseOf nm).length + 1))) 0 3 (restOf nm) ∧
      (restOf nm).length ≤ 3) ↔ Fits83 nm := by
  have hrestOf : restOf nm = (cString nm).drop 8 := if_neg (by omega)
  have hrestLen : (restOf nm).length = (cString nm).length - 8 := by rw [hrestOf, List.length_drop]
  have hrestD : ∀ k, (restOf nm).getD k 0 = (cString nm).getD (8 + k) 0 := by
    intro k
    rw [hrestOf, List.getD_eq_getElem?_getD, List.getD_eq_getElem?_getD, List.getElem?_drop]
  unfold Fits83
  by_cases hdot : 0x2E ∈ cString nm
  · rw [if_pos hdot]
    constructor
    · rintro ⟨-, hr, hl⟩
      -- the dot would have to be equal to a character of the extension
      exfalso
      have hlt := mem_cString_dot_iff.mp hdot
      have heq := hr.equal ((baseOf nm).length - 8) (by omega) (by omega)
      rw [hrestD, Nat.add_sub_cancel' (by omega), (cString_getD hlt).1] at heq
      rcases getD_length_baseOf nm with ⟨h, -⟩ | ⟨-, h⟩
      · omega
      · rw [h, show toupper 0x2E = 0x2E by decide, toupper_eq_iff (by decide)] at heq
        rcases partChar_cases 3 ((cString nm).drop ((baseOf nm).length + 1))
          (0 + ((baseOf nm).length - 8)) with h3 | ⟨d, hd, h3⟩
        · rw [h3] at heq
          exact absurd heq (by decide)
        · rw [h3, toupper_eq_iff (by decide)] at heq
          rw [heq] at hd
          exact absurd hd (by decide)
    · rintro ⟨-, -, hle, -⟩
      omega
  · have hbase := baseOf_eq_of_no_dot hdot
    rw [if_neg hdot, hbase] at *
    rw [List.drop_of_length_le (show (cString nm).length ≤ (cString nm).length + 1 by omega)]
    constructor
    · rintro ⟨hb, hr, hl⟩
      have hspace : ∀ k, 8 ≤ k → k < (cString nm).length → (cString nm).getD k 0 = 0x20 := by
        intro k hk hlt
        have heq := hr.equal (k - 8) (by omega) (by omega)
        rw [hrestD, Nat.add_sub_cancel' hk, partChar_nil] at heq
        exact (toupper_eq_iff (by decide)).mp heq.symm
      refine ⟨isPlain_of_partMatches hb hspace, ?_, by omega⟩
      by_contra hgt
      obtain ⟨-, halnum⟩ := getD_takeWhile (p := isalnum) (l := cString nm) (k := 8) (by omega)
      rw [hspace 8 (Nat.le_refl 8) (Nat.lt_of_lt_of_le hlen (length_baseOf_le nm))] at halnum
      exact absurd halnum (by decide)
    · rintro ⟨hb, htake, hle⟩
      refine ⟨hb.partMatches 8, ⟨?_, fun k _ _ => partChar_nil 3 _⟩, by omega⟩
      intro k hk hlt
      rw [partChar_nil, hrestD]
      have hmem : (cString nm).getD (8 + k) 0 ∈ (cString nm).dropWhile isalnum := by
        rw [dropWhile_eq_drop, List.getD_eq_getElem _ _ (by omega), List.mem_drop_iff_getElem]
        refine ⟨8 + k - ((cString nm).takeWhile isalnum).length, by omega, ?_⟩
        congr 1
        omega
      rw [hb _ hmem]

/-- **The strings that match what `convert_to_83_format` makes of them.** -/
theorem compareNames_convert_iff (nm : List UInt8) :
    compareNames (convertTo83Format nm) nm = true ↔ Fits83 nm := by
  by_cases hdots : cString nm = [0x2E] ∨ cString nm = [0x2E, 0x2E]
  · obtain ⟨h1, h2⟩ := compareNames_convert_dots hdots
    simp [h1, h2]
  · obtain ⟨h1, h2⟩ := not_or.mp hdots
    have hconv := convertTo83Format_eq h1 h2
    have hbase : PartMatches (convertTo83Format nm) 0 8 (baseOf nm) ↔
        PartMatches (partChar 8 (baseOf nm)) 0 8 (baseOf nm) := by
      apply partMatches_congr
      intro k hk
      rw [hconv, if_pos (by omega)]
    have hrest : PartMatches (convertTo83Format nm) 8 3 (restOf nm) ↔
        PartMatches (partChar 3 ((cString nm).drop ((baseOf nm).length + 1))) 0 3 (restOf nm) := by
      apply partMatches_congr
      intro k hk
      rw [hconv, if_neg (by omega), Nat.add_sub_cancel_left, Nat.zero_add]
    rw [compareNames_iff, hbase, hrest]
    rcases Nat.lt_or_ge 8 (baseOf nm).length with hlen | hlen
    · exact partMatches_long_iff hlen
    · exact partMatches_short_iff h1 hlen

end convert

end MicroKernel.Fat32
